import LibVsf.Lib.Text

/-!
# `str_tools`

`utils/str_tools.cpp`, and the exceptions of the code that reads files. A `std::string` is the list
of its characters.

The loops count positions in an `int`. What is defined here is what they compute for texts of fewer
than 2³¹ characters; longer ones are not modelled.
-/

namespace LibVsf

/-- What is thrown where files are read. -/
inductive ReadFailure where
  | fileOpenFailed (what : String)
  | scandirFailed (what : String)
  | conversionFailed (failure : Text.ConversionFailure)
deriving DecidableEq, Repr

namespace StrTools

def isBlank (c : Char) : Bool := c = '\n' || c = '\r' || c = '\t' || c = ' '

/-- `strip`: from the first to the last character that is not blank. -/
def strip (s : List Char) : List Char :=
  ((s.dropWhile isBlank).reverse.dropWhile isBlank).reverse

/-- `split`: the pieces that are not empty. -/
def split (s : List Char) (delim : Char) : List (List Char) := Text.pieces (fun c => c = delim) s

/-- `prefix_and_digits` and its siblings: a prefix, and one or more digits. -/
def prefixAndDigits (dirPrefix name : List Char) : Bool :=
  dirPrefix.isPrefixOf name && name.drop dirPrefix.length != [] &&
    (name.drop dirPrefix.length).all Char.isDigit

/-- `get_dirs`, for a directory with the given entries, or one that cannot be scanned. -/
def getDirs (dir : String) (dirPrefix : List Char) (entries : Option (List (List Char))) :
    Except ReadFailure (List (List Char)) :=
  if dirPrefix = [] ∨ dirPrefix = "node".toList ∨ dirPrefix = "vcpu".toList then
    match entries with
    | none => .error (.scandirFailed ("To scan directory: " ++ dir))
    | some names => .ok (names.filter (prefixAndDigits dirPrefix))
  else .error (.scandirFailed ("Undefine dir prefix: " ++ String.ofList dirPrefix))

/-! ## Lemmas -/

theorem strip_eq_nil {s : List Char} (h : ∀ c ∈ s, isBlank c = true) : strip s = [] := by
  have hdrop : s.dropWhile isBlank = [] := List.dropWhile_eq_nil_iff.2 h
  simp [strip, hdrop]

/-- A text without blanks at its ends, before blanks. -/
theorem strip_append {s blanks : List Char} (hne : s ≠ [])
    (hfirst : s.dropWhile isBlank = s) (hlast : s.reverse.dropWhile isBlank = s.reverse)
    (h : ∀ c ∈ blanks, isBlank c = true) : strip (s ++ blanks) = s := by
  have hfront : (s ++ blanks).dropWhile isBlank = s ++ blanks := by
    cases s with
    | nil => exact absurd rfl hne
    | cons c s =>
      have hc : ¬ isBlank c = true := by
        intro hblank
        have hlen := congrArg List.length hfirst
        have hle := List.length_dropWhile_le isBlank s
        rw [List.dropWhile_cons_of_pos hblank, List.length_cons] at hlen
        omega
      exact List.dropWhile_cons_of_neg hc
  have hback : ∀ c ∈ blanks.reverse, isBlank c = true := by
    intro c hc
    exact h c (List.mem_reverse.1 hc)
  simp only [strip]
  rw [hfront, List.reverse_append, List.dropWhile_append_of_pos hback, hlast, List.reverse_reverse]

theorem split_pair {a b : List Char} {delim : Char} (ha : a ≠ []) (hb : b ≠ [])
    (hda : delim ∉ a) (hdb : delim ∉ b) : split (a ++ delim :: b) delim = [a, b] := by
  refine Text.pieces_pair ha hb (fun c hc => ?_) (decide_eq_true rfl) fun c hc => ?_
  · exact decide_eq_false fun heq => hda (heq ▸ hc)
  · exact decide_eq_false fun heq => hdb (heq ▸ hc)

end StrTools

end LibVsf
