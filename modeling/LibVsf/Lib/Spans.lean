import LibVsf.Lib.Text
import Mathlib.Data.List.DropRight

/-!
# Spans of a list

**Maximal runs.** A run of a property is a range of positions where it holds; it is maximal if it
cannot be extended on either side. `pieces_eq_slices`: what a text is split into are its maximal
runs of characters that are no delimiter, from left to right.

**Ends.** A list without its longest prefix and its longest suffix with a property.
`trim_decomposition`: what is left is between the two, unless the whole list has the property.
-/

namespace Spans

variable {α : Type*} {p : α → Bool} {l : List α}

/-! ## Maximal runs -/

/-- A range of positions, from `start` to before `stop`. -/
structure Span where
  start : Nat
  stop : Nat
deriving DecidableEq, Repr

namespace Span

def shift (s : Span) (n : Nat) : Span := ⟨s.start + n, s.stop + n⟩

def slice (s : Span) (l : List α) : List α := (l.drop s.start).take (s.stop - s.start)

theorem slice_shift (s : Span) (a b : List α) : (s.shift a.length).slice (a ++ b) = s.slice b := by
  have hdrop : (a ++ b).drop (s.start + a.length) = b.drop s.start := by
    rw [Nat.add_comm, ← List.drop_drop, List.drop_left]
  have hlength : s.stop + a.length - (s.start + a.length) = s.stop - s.start := by omega
  simp only [slice, shift]
  rw [hdrop, hlength]

end Span

/-- There is an element at the position, and it has the property. -/
def HoldsAt (p : α → Bool) (l : List α) (i : Nat) : Prop := ∃ a, l[i]? = some a ∧ p a = true

/-- The property holds at each position of the span, and neither before it nor behind it. -/
structure MaximalRun (p : α → Bool) (l : List α) (s : Span) : Prop where
  start_lt : s.start < s.stop
  holds : ∀ i, s.start ≤ i → i < s.stop → HoldsAt p l i
  left : ∀ i, i + 1 = s.start → ¬ HoldsAt p l i
  right : ¬ HoldsAt p l s.stop

/-- The spans are the maximal runs, from left to right. -/
structure MaximalRuns (p : α → Bool) (l : List α) (spans : List Span) : Prop where
  mem_iff : ∀ s, s ∈ spans ↔ MaximalRun p l s
  ordered : spans.Pairwise fun s s' => s.stop < s'.start

theorem holdsAt_of_all (h : ∀ a ∈ l, p a = true) {i : Nat} : HoldsAt p l i ↔ i < l.length := by
  constructor
  · rintro ⟨a, ha, -⟩
    exact (List.getElem?_eq_some_iff.1 ha).1
  · intro hi
    exact ⟨l[i], List.getElem?_eq_getElem hi, h _ (List.getElem_mem hi)⟩

theorem holdsAt_append {a b : List α} {i : Nat} :
    HoldsAt p (a ++ b) i ↔ HoldsAt p a i ∨ a.length ≤ i ∧ HoldsAt p b (i - a.length) := by
  by_cases hi : i < a.length
  · have hnot : ¬ a.length ≤ i := Nat.not_le.2 hi
    simp [HoldsAt, List.getElem?_append_left hi, hnot]
  · have hle : a.length ≤ i := Nat.le_of_not_lt hi
    simp [HoldsAt, List.getElem?_append_right hle, hle]

/-- Before the first element without the property, and behind it. -/
theorem holdsAt_first {a b : List α} {d : α} (h : ∀ x ∈ a, p x = true) (hd : p d = false)
    {i : Nat} : HoldsAt p (a ++ d :: b) i ↔
      i < a.length ∨ a.length + 1 ≤ i ∧ HoldsAt p b (i - (a.length + 1)) := by
  have hone : ¬ HoldsAt p [d] (i - a.length) := by
    rintro ⟨x, hx, hpx⟩
    obtain rfl : x = d := List.mem_singleton.1 (List.mem_of_getElem? hx)
    rw [hd] at hpx
    cases hpx
  have hall : HoldsAt p a i ↔ i < a.length := holdsAt_of_all h
  have happ : a ++ d :: b = a ++ [d] ++ b := by simp
  rw [happ, holdsAt_append, holdsAt_append, List.length_append, List.length_singleton, hall]
  simp only [hone, and_false, or_false]

/-- Where the property holds everywhere, there is one run at most. -/
theorem maximalRun_all (h : ∀ a ∈ l, p a = true) {s : Span} :
    MaximalRun p l s ↔ l ≠ [] ∧ s = ⟨0, l.length⟩ := by
  have hholds (i : Nat) : HoldsAt p l i ↔ i < l.length := holdsAt_of_all h
  obtain ⟨start, stop⟩ := s
  rw [← List.length_pos_iff, Span.mk.injEq]
  constructor
  · rintro ⟨hlt, hin, hleft, hright⟩
    simp only [hholds] at hlt hin hleft hright
    have hlast := hin (stop - 1) (by omega) (by omega)
    have hstart : start = 0 := by
      by_contra hne
      exact hleft (start - 1) (by omega) (by omega)
    exact ⟨by omega, hstart, by omega⟩
  · rintro ⟨hpos, rfl, rfl⟩
    refine ⟨hpos, fun i _ hi => (hholds i).2 hi, fun i hi => ?_, fun hi => ?_⟩
    · exact absurd hi (Nat.succ_ne_zero i)
    · exact Nat.lt_irrefl _ ((hholds _).1 hi)

section First

variable {a b : List α} {d : α} {s : Span}

/-- Behind the first element without the property, the runs are those of the rest. -/
theorem maximalRun_shift (h : ∀ x ∈ a, p x = true) (hd : p d = false) :
    MaximalRun p (a ++ d :: b) (s.shift (a.length + 1)) ↔ MaximalRun p b s := by
  have hholds (i : Nat) : HoldsAt p (a ++ d :: b) (i + (a.length + 1)) ↔ HoldsAt p b i := by
    have hlt : ¬ i + (a.length + 1) < a.length := by omega
    have hle : a.length + 1 ≤ i + (a.length + 1) := Nat.le_add_left _ i
    rw [holdsAt_first h hd, Nat.add_sub_cancel]
    simp only [hlt, hle, false_or, true_and]
  constructor
  · rintro ⟨hlt, hin, hleft, hright⟩
    refine ⟨Nat.lt_of_add_lt_add_right hlt, fun i hle hi => ?_, fun i hi hb => ?_, fun hb => ?_⟩
    · exact (hholds i).1 (hin _ (Nat.add_le_add_right hle _) (Nat.add_lt_add_right hi _))
    · refine hleft (i + (a.length + 1)) ?_ ((hholds i).2 hb)
      rw [Nat.add_right_comm, hi]
      rfl
    · exact hright ((hholds s.stop).2 hb)
  · rintro ⟨hlt, hin, hleft, hright⟩
    refine ⟨Nat.add_lt_add_right hlt _, fun i hle hi => ?_, fun i hi hat => ?_, fun hat => ?_⟩
    · change s.start + (a.length + 1) ≤ i at hle
      change i < s.stop + (a.length + 1) at hi
      obtain ⟨j, rfl⟩ := Nat.exists_eq_add_of_le' (Nat.le_trans (Nat.le_add_left _ _) hle)
      exact (hholds j).2 (hin j (by omega) (by omega))
    · change i + 1 = s.start + (a.length + 1) at hi
      -- `i` is the place of `d`, or behind it
      obtain hlt' | ⟨hle, -⟩ := (holdsAt_first h hd).1 hat
      · omega
      · obtain ⟨j, rfl⟩ := Nat.exists_eq_add_of_le' hle
        exact hleft j (by omega) ((hholds j).1 hat)
    · exact hright ((hholds s.stop).1 hat)

/-- What is before the first element without the property is a run. -/
theorem maximalRun_before (h : ∀ x ∈ a, p x = true) (hd : p d = false) (hne : a ≠ []) :
    MaximalRun p (a ++ d :: b) ⟨0, a.length⟩ := by
  refine ⟨List.length_pos_iff.2 hne, fun i _ hi => (holdsAt_first h hd).2 (.inl hi), ?_, ?_⟩
  · exact fun i hi => absurd hi (Nat.succ_ne_zero i)
  · intro hat
    change HoldsAt p (a ++ d :: b) a.length at hat
    have hat := (holdsAt_first h hd).1 hat
    omega

/-- A run that starts there ends there, since the element is in no run. -/
theorem MaximalRun.eq_before (h : ∀ x ∈ a, p x = true) (hd : p d = false)
    (hrun : MaximalRun p (a ++ d :: b) s) (hstart : s.start ≤ a.length) :
    a ≠ [] ∧ s = ⟨0, a.length⟩ := by
  have hholds (i : Nat) : HoldsAt p (a ++ d :: b) i ↔
      i < a.length ∨ a.length + 1 ≤ i ∧ HoldsAt p b (i - (a.length + 1)) := holdsAt_first h hd
  obtain ⟨start, stop⟩ := s
  obtain ⟨hlt, hin, hleft, hright⟩ := hrun
  simp only [hholds] at hlt hin hleft hright hstart
  have hfirst := hin start (Nat.le_refl _) hlt
  have hzero : start = 0 := by
    by_contra hne
    exact hleft (start - 1) (by omega) (by omega)
  have hstop : stop = a.length := by
    by_contra hne
    have hd := hin a.length hstart (by omega)
    omega
  refine ⟨List.length_pos_iff.1 (by omega), ?_⟩
  rw [hzero, hstop]

/-- **The maximal runs on the two sides** of the first element without the property. -/
theorem maximalRun_first (h : ∀ x ∈ a, p x = true) (hd : p d = false) :
    MaximalRun p (a ++ d :: b) s ↔
      (a ≠ [] ∧ s = ⟨0, a.length⟩) ∨ ∃ s', MaximalRun p b s' ∧ s = s'.shift (a.length + 1) := by
  constructor
  · intro hrun
    by_cases hstart : s.start ≤ a.length
    · exact .inl (hrun.eq_before h hd hstart)
    · have hlt := hrun.start_lt
      have hshift : s = Span.shift ⟨s.start - (a.length + 1), s.stop - (a.length + 1)⟩
          (a.length + 1) := by
        obtain ⟨start, stop⟩ := s
        simp only [Span.shift, Span.mk.injEq] at hstart hlt ⊢
        omega
      rw [hshift] at hrun
      exact .inr ⟨_, (maximalRun_shift h hd).1 hrun, hshift⟩
  · rintro (⟨hne, rfl⟩ | ⟨s', hrun, rfl⟩)
    · exact maximalRun_before h hd hne
    · exact (maximalRun_shift h hd).2 hrun

end First

/-- **The first element without the property** splits a list, unless there is none. -/
theorem first_induction {motive : List α → Prop}
    (all : ∀ l, (∀ a ∈ l, p a = true) → motive l)
    (first : ∀ a d b, (∀ x ∈ a, p x = true) → p d = false → motive b → motive (a ++ d :: b))
    (l : List α) : motive l := by
  have hfrom (a : List α) (ha : ∀ x ∈ a, p x = true) : motive (a ++ l) := by
    induction l generalizing a with
    | nil =>
      rw [List.append_nil]
      exact all a ha
    | cons d b ih =>
      by_cases hd : p d = true
      · rw [List.append_cons]
        refine ih (a ++ [d]) fun x hx => ?_
        rcases List.mem_append.1 hx with hx | hx
        · exact ha x hx
        · rwa [List.mem_singleton.1 hx]
      · exact first a d b ha (Bool.eq_false_iff.2 hd) (ih [] (List.forall_mem_nil _))
  exact hfrom [] (List.forall_mem_nil _)

theorem maximalRuns_nil : MaximalRuns p [] [] := by
  refine ⟨fun s => ?_, List.Pairwise.nil⟩
  simp [maximalRun_all (List.forall_mem_nil _)]

theorem maximalRuns_all (hne : l ≠ []) (h : ∀ a ∈ l, p a = true) :
    MaximalRuns p l [⟨0, l.length⟩] := by
  refine ⟨fun s => ?_, List.pairwise_singleton _ _⟩
  rw [maximalRun_all h, List.mem_singleton, and_iff_right hne]

section Shifted

variable {a b : List α} {d : α} {spans : List Span}

theorem pairwise_shift (n : Nat) (h : spans.Pairwise fun s s' => s.stop < s'.start) :
    (spans.map fun s => s.shift n).Pairwise fun s s' => s.stop < s'.start :=
  List.pairwise_map.2 (h.imp fun hlt => Nat.add_lt_add_right hlt n)

/-- Nothing before the first element without the property. -/
theorem MaximalRuns.cons_nil (h : MaximalRuns p b spans) (hd : p d = false) :
    MaximalRuns p (d :: b) (spans.map fun s => s.shift 1) := by
  refine ⟨fun s => ?_, pairwise_shift 1 h.ordered⟩
  have hrun : MaximalRun p ([] ++ d :: b) s ↔ _ := maximalRun_first (List.forall_mem_nil _) hd
  rw [List.nil_append] at hrun
  simp [hrun, h.mem_iff, eq_comm]

theorem MaximalRuns.first (h : MaximalRuns p b spans) (hne : a ≠ []) (ha : ∀ x ∈ a, p x = true)
    (hd : p d = false) :
    MaximalRuns p (a ++ d :: b) (⟨0, a.length⟩ :: spans.map fun s => s.shift (a.length + 1)) := by
  refine ⟨fun s => ?_, List.pairwise_cons.2 ⟨?_, pairwise_shift _ h.ordered⟩⟩
  · simp [maximalRun_first ha hd, h.mem_iff, hne, eq_comm]
  · intro s hs
    obtain ⟨s, -, rfl⟩ := List.mem_map.1 hs
    show a.length < s.start + (a.length + 1)
    omega

theorem map_slice_shift (spans : List Span) (a b : List α) (d : α) :
    (spans.map fun s => s.shift (a.length + 1)).map (fun s => s.slice (a ++ d :: b)) =
      spans.map fun s => s.slice b := by
  rw [List.map_map]
  refine List.map_congr_left fun s _ => ?_
  have hslice : (s.shift (a ++ [d]).length).slice (a ++ [d] ++ b) = s.slice b :=
    s.slice_shift (a ++ [d]) b
  rw [List.length_append, List.length_singleton, ← List.append_cons] at hslice
  exact hslice

end Shifted

/-- **What a text is split into** are its maximal runs, from left to right. -/
theorem pieces_eq_slices (delim : Char → Bool) (text : List Char) :
    ∃ spans, MaximalRuns (fun c => !delim c) text spans ∧
      Text.pieces delim text = spans.map fun s => s.slice text := by
  have hnot {piece : List Char} (h : ∀ c ∈ piece, (!delim c) = true) :
      ∀ c ∈ piece, delim c = false := by
    intro c hc
    have hc := h c hc
    rwa [Bool.not_eq_true'] at hc
  induction text using first_induction (p := fun c => !delim c) with
  | all piece h =>
    by_cases hne : piece = []
    · subst hne
      exact ⟨[], maximalRuns_nil, rfl⟩
    · refine ⟨[⟨0, piece.length⟩], maximalRuns_all hne h, ?_⟩
      rw [Text.pieces_single hne (hnot h)]
      simp [Span.slice]
  | first piece d rest h hd ih =>
    obtain ⟨spans, hruns, hpieces⟩ := ih
    have hdelim : delim d = true := by rwa [Bool.not_eq_false'] at hd
    by_cases hne : piece = []
    · subst hne
      refine ⟨_, hruns.cons_nil hd, ?_⟩
      rw [List.nil_append, Text.pieces_delim hdelim, hpieces]
      exact (map_slice_shift spans [] rest d).symm
    · refine ⟨_, hruns.first hne h hd, ?_⟩
      rw [Text.pieces_cons hne (hnot h) hdelim, hpieces, List.map_cons, map_slice_shift]
      simp [Span.slice]

/-! ## Ends -/

/-- The longest prefix all of whose elements have the property. -/
structure LongestPrefix (p : α → Bool) (l pre : List α) : Prop where
  isPrefix : pre <+: l
  all : ∀ a ∈ pre, p a = true
  longest : ∀ other, other <+: l → (∀ a ∈ other, p a = true) → other.length ≤ pre.length

/-- The longest suffix all of whose elements have the property. -/
structure LongestSuffix (p : α → Bool) (l suf : List α) : Prop where
  isSuffix : suf <:+ l
  all : ∀ a ∈ suf, p a = true
  longest : ∀ other, other <:+ l → (∀ a ∈ other, p a = true) → other.length ≤ suf.length

theorem longestPrefix_takeWhile (p : α → Bool) (l : List α) :
    LongestPrefix p l (l.takeWhile p) := by
  refine ⟨List.takeWhile_prefix p, fun a ha => List.mem_takeWhile_imp ha, ?_⟩
  intro other hother hall
  obtain ⟨rest, rfl⟩ := hother
  rw [List.takeWhile_append_of_pos hall, List.length_append]
  exact Nat.le_add_right _ _

theorem longestSuffix_rtakeWhile (p : α → Bool) (l : List α) :
    LongestSuffix p l (l.rtakeWhile p) := by
  refine ⟨List.rtakeWhile_suffix p l, fun a ha => List.mem_rtakeWhile_imp ha, ?_⟩
  intro other hother hall
  have hreverse : other.reverse <+: l.reverse := List.reverse_prefix.2 hother
  have hlength := (longestPrefix_takeWhile p l.reverse).longest other.reverse hreverse
    fun a ha => hall a (List.mem_reverse.1 ha)
  rwa [List.rtakeWhile, List.length_reverse, ← List.length_reverse]

/-- A list without its longest prefix, and what is left without its longest suffix. -/
def trim (p : α → Bool) (l : List α) : List α := (l.dropWhile p).rdropWhile p

/-- The longest suffix is behind an element without the property. -/
theorem rtakeWhile_append {a b : List α} (h : ∃ x ∈ b, p x = false) :
    (a ++ b).rtakeWhile p = b.rtakeWhile p := by
  obtain ⟨x, hx, hpx⟩ := h
  have hshort : (b.reverse.takeWhile p).length ≠ b.reverse.length := by
    intro hlength
    have htake : b.reverse.takeWhile p = b.reverse :=
      (List.takeWhile_prefix p).eq_of_length hlength
    have hall := List.takeWhile_eq_self_iff.1 htake x (List.mem_reverse.2 hx)
    rw [hpx] at hall
    cases hall
  rw [List.rtakeWhile, List.reverse_append, List.takeWhile_append, if_neg hshort]
  rfl

/-- **What is left is between the longest prefix and the longest suffix.** -/
theorem trim_decomposition (h : ∃ x ∈ l, p x = false) :
    l = l.takeWhile p ++ trim p l ++ l.rtakeWhile p := by
  obtain ⟨x, hx, hpx⟩ := h
  have hdrop : ∃ x ∈ l.dropWhile p, p x = false := by
    refine ⟨x, ?_, hpx⟩
    rw [← List.takeWhile_append_dropWhile (p := p) (l := l), List.mem_append] at hx
    rcases hx with hx | hx
    · rw [List.mem_takeWhile_imp hx] at hpx
      cases hpx
    · exact hx
  have hsuffix := rtakeWhile_append (a := l.takeWhile p) hdrop
  rw [List.takeWhile_append_dropWhile] at hsuffix
  rw [hsuffix, List.append_assoc, trim, List.rdropWhile_append_rtakeWhile,
    List.takeWhile_append_dropWhile]

theorem head_trim_not (hne : trim p l ≠ []) : p ((trim p l).head hne) = false := by
  have hpre : trim p l <+: l.dropWhile p := List.rdropWhile_prefix p _
  have hdrop : l.dropWhile p ≠ [] := by
    intro hnil
    rw [hnil] at hpre
    exact hne (List.prefix_nil.1 hpre)
  rw [hpre.head hne]
  exact List.head_dropWhile_not p hdrop

theorem getLast_trim_not (hne : trim p l ≠ []) : p ((trim p l).getLast hne) = false :=
  Bool.eq_false_iff.2 (List.rdropWhile_last_not p _ hne)

theorem trim_eq_self (hhead : ∀ hne : l ≠ [], p (l.head hne) = false)
    (hlast : ∀ hne : l ≠ [], p (l.getLast hne) = false) : trim p l = l := by
  have hdrop : l.dropWhile p = l := by
    cases l with
    | nil => rfl
    | cons a l =>
      have ha : ¬ p a = true := Bool.eq_false_iff.1 (hhead (List.cons_ne_nil a l))
      exact List.dropWhile_cons_of_neg ha
  rw [trim, hdrop]
  exact (List.rdropWhile_eq_self_iff).2 fun hne => Bool.eq_false_iff.1 (hlast hne)

/-- **Trimming again** changes nothing. -/
theorem trim_trim (p : α → Bool) (l : List α) : trim p (trim p l) = trim p l :=
  trim_eq_self head_trim_not getLast_trim_not

end Spans
