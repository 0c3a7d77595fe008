import LibVsf.StrToolsLoops

/-!
# What `split`, `strip` and the scanners of names compute

**`split`** (`split_maximal`). It appends the maximal runs of characters other than the delimiter.
Joined by the delimiter, they are split into the same runs.

**`strip`** (`strip_between`). It leaves what is between the longest blank prefix and the longest
blank suffix. Its bounds are in order, since each loop stops at a character that is not blank, and
the first such character is not behind the last.

**Names** (`scanners_accept`). A scanner reads no further than the `NUL` and accepts the names that
are its prefix and decimal digits. What the callers of `get_dirs` convert is not empty.
-/

namespace LibVsf

namespace StrTools

namespace Loops

/-! ## `split` -/

/-- The pieces are what is between the delimiters, and can be split again. -/
structure SplitInto (s : List Char) (delim : Char) (pieces : List (List Char)) : Prop where
  /-- They are the maximal runs, from left to right. -/
  runs : ∃ spans, Spans.MaximalRuns (fun c => c ≠ delim) s spans ∧
    pieces = spans.map fun span => span.slice s
  not_empty : ∀ piece ∈ pieces, piece ≠ [] ∧ delim ∉ piece
  flatten : pieces.flatten = s.filter fun c => c ≠ delim
  joined : ∀ ret, split ([delim].intercalate pieces) delim ret = .ok (ret ++ pieces)

theorem splitInto_split {s : List Char} (h : s.length < 2147483648) (delim : Char) :
    SplitInto s delim (StrTools.split s delim) := by
  have hnot : (fun c : Char => decide (c ≠ delim)) = fun c => !decide (c = delim) := by
    funext c
    exact decide_not
  have hpieces : ∀ piece ∈ StrTools.split s delim,
      piece ≠ [] ∧ ∀ c ∈ piece, decide (c = delim) = false :=
    fun piece hpiece => Text.of_mem_pieces hpiece
  refine ⟨?_, fun piece hpiece => ?_, ?_, fun ret => ?_⟩
  · rw [hnot]
    exact Spans.pieces_eq_slices (fun c => c = delim) s
  · obtain ⟨hne, hdelim⟩ := hpieces piece hpiece
    exact ⟨hne, fun hmem => of_decide_eq_false (hdelim delim hmem) rfl⟩
  · rw [hnot]
    exact Text.flatten_pieces (fun c => c = delim) s
  · have hlength : ([delim].intercalate (StrTools.split s delim)).length < 2147483648 :=
      Nat.lt_of_le_of_lt (Text.length_joined_le (fun c => c = delim) delim s) h
    rw [split_eq hlength]
    congr 2
    exact Text.pieces_joined (decide_eq_true rfl) hpieces

/-- **`split` appends the maximal runs.** -/
theorem split_maximal {s : List Char} (h : s.length < 2147483648) (delim : Char)
    (ret : List (List Char)) :
    ∃ pieces, split s delim ret = .ok (ret ++ pieces) ∧ SplitInto s delim pieces :=
  ⟨StrTools.split s delim, split_eq h delim ret, splitInto_split h delim⟩

theorem split_maximal_distances :
    [' ', '1', '0', ' ', ' ', '2', '0'].length < 2147483648 ∧
      ∃ pieces, split [' ', '1', '0', ' ', ' ', '2', '0'] ' ' [['n']] = .ok (['n'] :: pieces) ∧
        SplitInto [' ', '1', '0', ' ', ' ', '2', '0'] ' ' pieces :=
  ⟨by decide, split_maximal (by decide) ' ' [['n']]⟩

/-! ## `strip` -/

/-- The text is left of `s` without its blank ends. -/
structure Stripped (s text : List Char) : Prop where
  blank : (∀ c ∈ s, isBlank c = true) → text = []
  between : (∃ c ∈ s, isBlank c = false) → ∃ before behind, s = before ++ text ++ behind ∧
    Spans.LongestPrefix isBlank s before ∧ Spans.LongestSuffix isBlank s behind
  first : ∀ hne : text ≠ [], isBlank (text.head hne) = false
  last : ∀ hne : text ≠ [], isBlank (text.getLast hne) = false
  again : strip text = .ok text

theorem stripped_strip (s : List Char) : Stripped s (StrTools.strip s) where
  blank := strip_eq_nil
  between := fun h => ⟨s.takeWhile isBlank, s.rtakeWhile isBlank, Spans.trim_decomposition h,
    Spans.longestPrefix_takeWhile isBlank s, Spans.longestSuffix_rtakeWhile isBlank s⟩
  first := Spans.head_trim_not
  last := Spans.getLast_trim_not
  again := (strip_eq _).trans (congrArg Except.ok (Spans.trim_trim isBlank s))

/-- **`strip` leaves what is between the blank ends**, and its bounds do not underflow. -/
theorem strip_between (s : List Char) :
    (begOf s ≤ endOf s ∧ endOf s ≤ s.length ∧ begOf s + sizeSub (endOf s) (begOf s) = endOf s) ∧
      ∃ text, strip s = .ok text ∧ Stripped s text := by
  obtain ⟨hle, hlength⟩ := bounds_le s
  have hsub : sizeSub (endOf s) (begOf s) = endOf s - begOf s := if_pos hle
  refine ⟨⟨hle, hlength, ?_⟩, StrTools.strip s, strip_eq s, stripped_strip s⟩
  rw [hsub, Nat.add_sub_cancel' hle]

/-! ## Names -/

/-- A prefix, and decimal digits behind it. -/
def Named (dirPrefix name : List Char) : Prop :=
  ∃ digits : Text.Digits, name = dirPrefix ++ digits.chars

theorem prefixAndDigits_iff {dirPrefix name : List Char} :
    StrTools.prefixAndDigits dirPrefix name = true ↔ Named dirPrefix name := by
  simp only [StrTools.prefixAndDigits, Bool.and_eq_true, List.isPrefixOf_iff_prefix, bne_iff_ne,
    List.all_eq_true]
  constructor
  · rintro ⟨⟨⟨digits, rfl⟩, hne⟩, hdigits⟩
    rw [List.drop_left] at hne hdigits
    exact ⟨⟨digits, hne, hdigits⟩, rfl⟩
  · rintro ⟨⟨digits, hne, hdigits⟩, rfl⟩
    rw [List.drop_left]
    exact ⟨⟨List.prefix_append _ _, hne⟩, hdigits⟩

/-- The scanner returns: it has read no `NUL` before the last character that it has read, and it
accepts the names with its prefix. -/
def Scans (dirPrefix : List Char) (scanner : Dirent → Option Scan) : Prop :=
  ∀ dptr, ∃ scan, scanner dptr = some scan ∧ '\x00' ∉ dptr.dName.take scan.lastRead ∧
    (scan.accepted = true ↔ Named dirPrefix dptr.name)

theorem scans_scanPrefix {dirPrefix : List Char} (h : '\x00' ∉ dirPrefix) :
    Scans dirPrefix fun dptr => scanPrefix dirPrefix dptr.dName 0 := by
  intro dptr
  obtain ⟨n, hn, hscan⟩ := scan_eq h dptr
  refine ⟨_, hscan, ?_, prefixAndDigits_iff⟩
  obtain ⟨rest, hdName, hname⟩ := dptr.dName_eq
  show '\x00' ∉ dptr.dName.take n
  rw [hdName, List.take_append_of_le_length hn]
  exact fun hmem => hname (List.mem_of_mem_take hmem)

/-- The names that are found have the prefix. -/
theorem named_of_mem_getDirs {dir : String} {dirPrefix name : List Char}
    {entries : Option (List Dirent)} {dirs : List (List Char)}
    (h : getDirs dir dirPrefix entries = .ok dirs) (hname : name ∈ dirs) :
    Named dirPrefix name := by
  rw [getDirs_eq, StrTools.getDirs.eq_def] at h
  split_ifs at h
  cases entries with
  | none => cases h
  | some es =>
    obtain rfl := Except.ok.inj h
    exact prefixAndDigits_iff.1 (List.mem_filter.1 hname).2

/-- **What is behind the prefix** is converted, unless it does not fit in an `int`. -/
theorem Named.stoi_drop {dirPrefix name : List Char} (h : Named dirPrefix name) :
    ∃ digits : Text.Digits, name.drop dirPrefix.length = digits.chars ∧
      Text.stoi (name.drop dirPrefix.length) =
        if digits.value ≤ 2147483647 then .ok (digits.value : Int) else .error .outOfRange := by
  obtain ⟨digits, rfl⟩ := h
  refine ⟨digits, List.drop_left, ?_⟩
  rw [List.drop_left]
  exact digits.stoi_chars

/-- **The scanners accept their prefix with digits**, and their callers convert digits. -/
theorem scanners_accept :
    (Scans [] prefixAndDigits ∧ Scans "node".toList prefixAndDigitsNode ∧
      Scans "vcpu".toList prefixAndDigitsVcpu) ∧
    ∀ dir dirPrefix entries dirs, getDirs dir dirPrefix entries = .ok dirs → ∀ name ∈ dirs,
      ∃ digits : Text.Digits, name.drop dirPrefix.length = digits.chars ∧
        Text.stoi (name.drop dirPrefix.length) =
          if digits.value ≤ 2147483647 then .ok (digits.value : Int) else .error .outOfRange := by
  refine ⟨⟨scans_scanPrefix List.not_mem_nil, ?_, ?_⟩, ?_⟩
  · have hnul : '\x00' ∉ "node".toList := by decide
    exact scans_scanPrefix hnul
  · have hnul : '\x00' ∉ "vcpu".toList := by decide
    exact scans_scanPrefix hnul
  · intro dir dirPrefix entries dirs hdirs name hname
    exact (named_of_mem_getDirs hdirs hname).stoi_drop

end Loops

end StrTools

end LibVsf
