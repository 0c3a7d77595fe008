import Mathlib.Data.List.TakeWhile
import Mathlib.Tactic.Common

/-!
# Texts as a C++ program reads them

A text is the list of its characters. `lines` and `words` are what repeated `getline` and `>>`
take from a stream, `stoi` is the conversion of a number at the start of a text, which throws if
there is none or if it does not fit in an `int`.

* `lines_unlines`: lines that are written one after the other are read back.
* `flatten_buffered`, `bufferedFrom_line`: reading through a buffer neither loses nor adds anything,
  and starts anew after each line.
* `pieces_unlines`, `pieces_spaced`: lines and words are what a text is split into.
* `Numeral.stoi_text`: the digits of a number, after blanks, are converted to it.
-/

namespace Text

/-! ## Characters -/

/-- `isspace`, in the C locale. -/
def isSpace (c : Char) : Bool := c = ' ' || (9 ≤ c.toNat && c.toNat ≤ 13)

theorem isSpace_of_isDigit {c : Char} (h : c.isDigit = true) : isSpace c = false := by
  have hc : 48 ≤ c.toNat ∧ c.toNat ≤ 57 := by
    simpa [Char.isDigit, UInt32.le_iff_toNat_le] using h
  have hne : c ≠ ' ' := by
    intro heq
    subst heq
    exact absurd hc.1 (by decide)
  simp only [isSpace, hne, decide_false, Bool.false_or, Bool.and_eq_false_iff,
    decide_eq_false_iff_not]
  omega

/-- A text without blanks, as it is computed. -/
theorem not_blank_of_all {text : List Char} (h : (text.all fun c => !isSpace c) = true) :
    ∀ c ∈ text, isSpace c = false := by
  intro c hc
  have hblank := List.all_eq_true.1 h c hc
  rwa [Bool.not_eq_true'] at hblank

/-! ## Lines -/

/-- The lines left, with what has been read of the first. -/
def linesFrom (read : List Char) : List Char → List (List Char)
  | [] => if read = [] then [] else [read]
  | c :: cs => if c = '\n' then read :: linesFrom [] cs else linesFrom (read ++ [c]) cs

/-- `getline`, to the end of the stream. -/
def lines (text : List Char) : List (List Char) := linesFrom [] text

/-- The lines, each ended. -/
def unlines (ls : List (List Char)) : List Char := ls.flatMap fun l => l ++ ['\n']

theorem unlines_cons (l : List Char) (ls : List (List Char)) :
    unlines (l :: ls) = l ++ '\n' :: unlines ls := by
  simp [unlines]

theorem linesFrom_append {line : List Char} (h : '\n' ∉ line) (read rest : List Char) :
    linesFrom read (line ++ '\n' :: rest) = (read ++ line) :: lines rest := by
  induction line generalizing read with
  | nil => simp [linesFrom, lines]
  | cons c line ih =>
    have hc : c ≠ '\n' := by
      intro heq
      exact h (heq ▸ List.mem_cons_self)
    have hline : '\n' ∉ line := fun hmem => h (List.mem_cons_of_mem c hmem)
    simp only [List.cons_append, linesFrom, hc, if_false]
    rw [ih hline]
    simp

/-- **Lines that were written are read back.** -/
theorem lines_unlines {ls : List (List Char)} (h : ∀ l ∈ ls, '\n' ∉ l) :
    lines (unlines ls) = ls := by
  induction ls with
  | nil => rfl
  | cons l ls ih =>
    obtain ⟨hl, hls⟩ := List.forall_mem_cons.1 h
    rw [unlines_cons, lines, linesFrom_append hl, ih hls]
    rfl

/-- What is left for `fgets`, with what it has read into a buffer of the size. -/
def bufferedFrom (size : Nat) (read : List Char) : List Char → List (List Char)
  | [] => if read = [] then [] else [read]
  | c :: cs =>
    if c = '\n' ∨ read.length + 2 = size then (read ++ [c]) :: bufferedFrom size [] cs
    else bufferedFrom size (read ++ [c]) cs

/-- `fgets`, to the end of the stream: lines with their ends, in parts that fit in the buffer. -/
def buffered (size : Nat) (text : List Char) : List (List Char) := bufferedFrom size [] text

/-- What a buffer holds as a string: it ends at the first `NUL`. -/
def cString (buf : List Char) : List Char := buf.takeWhile fun c => c ≠ '\x00'

theorem cString_eq {buf : List Char} (h : '\x00' ∉ buf) : cString buf = buf := by
  refine List.takeWhile_eq_self_iff.2 fun c hc => decide_eq_true fun heq => h (heq ▸ hc)

theorem cString_append {text : List Char} (h : '\x00' ∉ text) (rest : List Char) :
    cString (text ++ '\x00' :: rest) = text := by
  have htext : ∀ c ∈ text, decide (c ≠ '\x00') = true :=
    fun c hc => decide_eq_true fun heq => h (heq ▸ hc)
  rw [cString, List.takeWhile_append_of_pos htext]
  simp

/-- Nothing is lost or added by reading through a buffer. -/
theorem flatten_bufferedFrom (size : Nat) (read text : List Char) :
    (bufferedFrom size read text).flatten = read ++ text := by
  induction text generalizing read with
  | nil =>
    simp only [bufferedFrom]
    split_ifs with h
    · rw [h]
      rfl
    · simp
  | cons c text ih =>
    simp only [bufferedFrom]
    split_ifs
    · rw [List.flatten_cons, ih]
      simp
    · rw [ih]
      simp

theorem flatten_buffered (size : Nat) (text : List Char) : (buffered size text).flatten = text :=
  flatten_bufferedFrom size [] text

/-- The parts of a line, and those of what comes after it. -/
theorem bufferedFrom_line (size : Nat) {line : List Char} (h : '\n' ∉ line)
    (read rest : List Char) : bufferedFrom size read (line ++ '\n' :: rest) =
      bufferedFrom size read (line ++ ['\n']) ++ buffered size rest := by
  induction line generalizing read with
  | nil => simp [bufferedFrom, buffered]
  | cons c line ih =>
    have hline : '\n' ∉ line := fun hmem => h (List.mem_cons_of_mem c hmem)
    simp only [List.cons_append, bufferedFrom, ih hline]
    split_ifs <;> rfl

theorem buffered_line (size : Nat) {line : List Char} (h : '\n' ∉ line) (rest : List Char) :
    buffered size (line ++ '\n' :: rest) = buffered size (line ++ ['\n']) ++ buffered size rest :=
  bufferedFrom_line size h [] rest

/-- A line that fits in the buffer is one part. -/
theorem bufferedFrom_short {size : Nat} {line : List Char} (h : '\n' ∉ line) {read : List Char}
    (hsize : read.length + line.length + 1 < size) (rest : List Char) :
    bufferedFrom size read (line ++ '\n' :: rest) =
      (read ++ (line ++ ['\n'])) :: buffered size rest := by
  induction line generalizing read with
  | nil => simp [bufferedFrom, buffered]
  | cons c line ih =>
    obtain ⟨hc, hline⟩ := List.ne_and_not_mem_of_not_mem_cons h
    have hgo : ¬ (c = '\n' ∨ read.length + 2 = size) := by
      rw [List.length_cons] at hsize
      exact not_or.2 ⟨Ne.symm hc, by omega⟩
    have hsize' : (read ++ [c]).length + line.length + 1 < size := by
      rw [List.length_cons] at hsize
      rw [List.length_append, List.length_singleton]
      omega
    rw [List.cons_append, bufferedFrom, if_neg hgo, ih hline hsize']
    simp

/-- **Lines that fit in the buffer** are read one by one. -/
theorem buffered_unlines {size : Nat} {ls : List (List Char)}
    (h : ∀ l ∈ ls, '\n' ∉ l ∧ l.length + 1 < size) :
    buffered size (unlines ls) = ls.map fun l => l ++ ['\n'] := by
  induction ls with
  | nil => rfl
  | cons l ls ih =>
    obtain ⟨⟨hline, hsize⟩, hls⟩ := List.forall_mem_cons.1 h
    have hread : ([] : List Char).length + l.length + 1 < size := by
      rw [List.length_nil]
      omega
    rw [unlines_cons, buffered, bufferedFrom_short hline hread, ih hls]
    rfl

/-- A line that fits in the buffer, on its own. -/
theorem buffered_short {size : Nat} {line : List Char} (h : '\n' ∉ line)
    (hsize : line.length + 1 < size) : buffered size (line ++ ['\n']) = [line ++ ['\n']] := by
  have hread : ([] : List Char).length + line.length + 1 < size := by
    rw [List.length_nil, Nat.zero_add]
    exact hsize
  rw [buffered, bufferedFrom_short h hread, List.nil_append]
  rfl

/-- **Lines are read one after the other**, each in its parts. -/
theorem buffered_lines (size : Nat) {ls : List (List Char)} (h : ∀ l ∈ ls, '\n' ∉ l) :
    buffered size (unlines ls) = ls.flatMap fun l => buffered size (l ++ ['\n']) := by
  induction ls with
  | nil => rfl
  | cons l ls ih =>
    obtain ⟨hl, hls⟩ := List.forall_mem_cons.1 h
    rw [unlines_cons, buffered_line size hl, ih hls, List.flatMap_cons]

theorem mem_of_mem_buffered {size : Nat} {text part : List Char} {c : Char}
    (hpart : part ∈ buffered size text) (hc : c ∈ part) : c ∈ text := by
  rw [← flatten_buffered size text]
  exact List.mem_flatten.2 ⟨part, hpart, hc⟩

/-- A text without `NUL` is read whole. -/
theorem flatten_cString_buffered (size : Nat) {text : List Char} (h : '\x00' ∉ text) :
    ((buffered size text).map cString).flatten = text := by
  have hid : ∀ part ∈ buffered size text, cString part = part :=
    fun part hpart => cString_eq fun hnul => h (mem_of_mem_buffered hpart hnul)
  rw [List.map_congr_left hid, List.map_id', flatten_buffered]

/-! ## Blocks -/

/-- What is left for `fread`, with what it has read of a block of the size. -/
def blocksFrom (size : Nat) (read : List Char) : List Char → List (List Char)
  | [] => if read = [] then [] else [read]
  | c :: cs =>
    if read.length + 1 = size then (read ++ [c]) :: blocksFrom size [] cs
    else blocksFrom size (read ++ [c]) cs

/-- `fread` of blocks of the size, to the end of the stream. -/
def blocks (size : Nat) (text : List Char) : List (List Char) := blocksFrom size [] text

/-! ## Pieces -/

/-- The pieces left between delimiters, with what has been read of the first; empty ones are
dropped. -/
def piecesFrom (delim : Char → Bool) (read : List Char) : List Char → List (List Char)
  | [] => if read = [] then [] else [read]
  | c :: cs =>
    if delim c then
      if read = [] then piecesFrom delim [] cs else read :: piecesFrom delim [] cs
    else piecesFrom delim (read ++ [c]) cs

def pieces (delim : Char → Bool) (text : List Char) : List (List Char) := piecesFrom delim [] text

/-- `>>` to a string, to the end of the stream. -/
def words (text : List Char) : List (List Char) := pieces isSpace text

theorem piecesFrom_last {delim : Char → Bool} {piece : List Char}
    (h : ∀ c ∈ piece, delim c = false) (read : List Char) :
    piecesFrom delim read piece = if read ++ piece = [] then [] else [read ++ piece] := by
  induction piece generalizing read with
  | nil => simp [piecesFrom]
  | cons c piece ih =>
    obtain ⟨hc, hpiece⟩ := List.forall_mem_cons.1 h
    simp [piecesFrom, hc, ih hpiece]

theorem piecesFrom_append {delim : Char → Bool} {piece : List Char} {d : Char}
    (h : ∀ c ∈ piece, delim c = false) (hd : delim d = true) (read rest : List Char) :
    piecesFrom delim read (piece ++ d :: rest) =
      if read ++ piece = [] then pieces delim rest
      else (read ++ piece) :: pieces delim rest := by
  induction piece generalizing read with
  | nil => simp [piecesFrom, hd, pieces]
  | cons c piece ih =>
    obtain ⟨hc, hpiece⟩ := List.forall_mem_cons.1 h
    simp [piecesFrom, hc, ih hpiece]

/-- **A text with one delimiter** has the pieces on its two sides. -/
theorem pieces_pair {delim : Char → Bool} {a b : List Char} {d : Char} (ha : a ≠ [])
    (hb : b ≠ []) (hda : ∀ c ∈ a, delim c = false) (hd : delim d = true)
    (hdb : ∀ c ∈ b, delim c = false) : pieces delim (a ++ d :: b) = [a, b] := by
  rw [pieces, piecesFrom_append hda hd, pieces, piecesFrom_last hdb]
  simp [ha, hb]

theorem pieces_delim {delim : Char → Bool} {d : Char} (hd : delim d = true) (text : List Char) :
    pieces delim (d :: text) = pieces delim text := by
  simp [pieces, piecesFrom, hd]

theorem pieces_replicate {delim : Char → Bool} {d : Char} (hd : delim d = true) (n : Nat)
    (text : List Char) : pieces delim (List.replicate n d ++ text) = pieces delim text := by
  induction n with
  | zero => rfl
  | succ n ih =>
    rw [List.replicate_succ, List.cons_append, pieces_delim hd, ih]

theorem piecesFrom_ne_nil {delim : Char → Bool} {text read : List Char}
    (h : read ≠ [] ∨ ∃ c ∈ text, delim c = false) : piecesFrom delim read text ≠ [] := by
  induction text generalizing read with
  | nil =>
    have hread : read ≠ [] := by simpa using h
    simp [piecesFrom, hread]
  | cons c text ih =>
    simp only [piecesFrom]
    split_ifs with hc hread
    · refine ih (.inr ?_)
      simpa [hread, hc] using h
    · exact List.cons_ne_nil _ _
    · exact ih (.inl (by simp))

theorem pieces_ne_nil {delim : Char → Bool} {text : List Char} {c : Char} (hc : c ∈ text)
    (h : delim c = false) : pieces delim text ≠ [] :=
  piecesFrom_ne_nil (.inr ⟨c, hc, h⟩)

/-- Only delimiters leave no piece. -/
theorem pieces_eq_nil_iff {delim : Char → Bool} {text : List Char} :
    pieces delim text = [] ↔ ∀ c ∈ text, delim c = true := by
  constructor
  · intro hnil c hc
    by_contra hnot
    exact pieces_ne_nil hc (Bool.eq_false_iff.2 hnot) hnil
  · intro hall
    induction text with
    | nil => rfl
    | cons c text ih =>
      obtain ⟨hc, htext⟩ := List.forall_mem_cons.1 hall
      rw [pieces_delim hc]
      exact ih htext

/-- **The pieces on the two sides of a delimiter.** -/
theorem pieces_append {delim : Char → Bool} {d : Char} (hd : delim d = true)
    (text rest : List Char) :
    pieces delim (text ++ d :: rest) = pieces delim text ++ pieces delim rest := by
  have hfrom (read : List Char) :
      piecesFrom delim read (text ++ d :: rest) =
        piecesFrom delim read text ++ pieces delim rest := by
    induction text generalizing read with
    | nil =>
      simp only [List.nil_append, piecesFrom, hd, if_true]
      split_ifs <;> rfl
    | cons c text ih =>
      simp only [List.cons_append, piecesFrom, ih]
      split_ifs <;> rfl
  exact hfrom []

/-- The characters of parts that are joined. -/
theorem mem_intercalate {sep : List Char} {parts : List (List Char)} {c : Char}
    (h : c ∈ sep.intercalate parts) : c ∈ sep ∨ ∃ part ∈ parts, c ∈ part := by
  induction parts with
  | nil => cases h
  | cons part parts ih =>
    cases parts with
    | nil =>
      rw [List.intercalate_singleton] at h
      exact .inr ⟨part, List.mem_cons_self, h⟩
    | cons part' parts =>
      rw [List.intercalate_cons_cons, List.mem_append, List.mem_append] at h
      rcases h with (h | h) | h
      · exact .inr ⟨part, List.mem_cons_self, h⟩
      · exact .inl h
      · obtain hsep | ⟨part'', hpart, hc⟩ := ih h
        · exact .inl hsep
        · exact .inr ⟨part'', List.mem_cons_of_mem part hpart, hc⟩

/-- **The pieces of parts that are joined** are those of the parts. -/
theorem pieces_intercalate {delim : Char → Bool} {d : Char} (hd : delim d = true)
    (parts : List (List Char)) :
    pieces delim ([d].intercalate parts) = parts.flatMap (pieces delim) := by
  induction parts with
  | nil => rfl
  | cons part parts ih =>
    cases parts with
    | nil => simp [List.intercalate_singleton]
    | cons part' parts =>
      rw [List.intercalate_cons_cons, List.append_assoc, List.flatMap_cons, ← ih]
      exact pieces_append hd part ([d].intercalate (part' :: parts))

/-- A piece before a delimiter. -/
theorem pieces_cons {delim : Char → Bool} {piece : List Char} {d : Char} (hne : piece ≠ [])
    (h : ∀ c ∈ piece, delim c = false) (hd : delim d = true) (rest : List Char) :
    pieces delim (piece ++ d :: rest) = piece :: pieces delim rest := by
  rw [pieces, piecesFrom_append h hd]
  simp [hne]

theorem pieces_single {delim : Char → Bool} {piece : List Char} (hne : piece ≠ [])
    (h : ∀ c ∈ piece, delim c = false) : pieces delim piece = [piece] := by
  rw [pieces, piecesFrom_last h]
  simp [hne]

/-- **Pieces that are joined** are found again. -/
theorem pieces_joined {delim : Char → Bool} {d : Char} (hd : delim d = true)
    {parts : List (List Char)}
    (h : ∀ part ∈ parts, part ≠ [] ∧ ∀ c ∈ part, delim c = false) :
    pieces delim ([d].intercalate parts) = parts := by
  rw [pieces_intercalate hd]
  induction parts with
  | nil => rfl
  | cons part parts ih =>
    obtain ⟨⟨hne, hpart⟩, hparts⟩ := List.forall_mem_cons.1 h
    rw [List.flatMap_cons, pieces_single hne hpart, ih hparts]
    rfl

theorem flatten_piecesFrom (delim : Char → Bool) (read text : List Char) :
    (piecesFrom delim read text).flatten = read ++ text.filter fun c => !delim c := by
  induction text generalizing read with
  | nil =>
    simp only [piecesFrom]
    split_ifs with h
    · rw [h]
      rfl
    · simp
  | cons c text ih =>
    simp only [piecesFrom]
    split_ifs with hc hread
    · simp [ih, hc, hread]
    · simp [ih, hc]
    · simp [ih, hc]

/-- Only delimiters are lost. -/
theorem flatten_pieces (delim : Char → Bool) (text : List Char) :
    (pieces delim text).flatten = text.filter fun c => !delim c :=
  flatten_piecesFrom delim [] text

theorem of_mem_piecesFrom {delim : Char → Bool} {read text part : List Char}
    (h : ∀ c ∈ read, delim c = false) (hpart : part ∈ piecesFrom delim read text) :
    part ≠ [] ∧ ∀ c ∈ part, delim c = false := by
  induction text generalizing read with
  | nil =>
    simp only [piecesFrom] at hpart
    split_ifs at hpart with hread
    · cases hpart
    · obtain rfl : part = read := List.mem_singleton.1 hpart
      exact ⟨hread, h⟩
  | cons c text ih =>
    simp only [piecesFrom] at hpart
    split_ifs at hpart with hc hread
    · exact ih (List.forall_mem_nil _) hpart
    · obtain rfl | hpart := List.mem_cons.1 hpart
      · exact ⟨hread, h⟩
      · exact ih (List.forall_mem_nil _) hpart
    · refine ih (fun x hx => ?_) hpart
      rcases List.mem_append.1 hx with hx | hx
      · exact h x hx
      · rw [List.mem_singleton.1 hx]
        exact Bool.eq_false_iff.2 hc

/-- **No piece is empty**, and none has a delimiter. -/
theorem of_mem_pieces {delim : Char → Bool} {text part : List Char}
    (hpart : part ∈ pieces delim text) : part ≠ [] ∧ ∀ c ∈ part, delim c = false :=
  of_mem_piecesFrom (List.forall_mem_nil _) hpart

/-- The pieces, each with a delimiter behind it, are no longer than the text with one more. -/
theorem length_ended_piecesFrom_le (delim : Char → Bool) (d : Char) (read text : List Char) :
    ((piecesFrom delim read text).flatMap fun part => part ++ [d]).length ≤
      read.length + text.length + 1 := by
  induction text generalizing read with
  | nil =>
    simp only [piecesFrom]
    split_ifs <;> simp
  | cons c text ih =>
    have hnil := ih []
    have hread := ih (read ++ [c])
    simp only [List.length_nil, List.length_append, List.length_singleton] at hnil hread
    simp only [piecesFrom, List.length_cons]
    split_ifs
    · omega
    · rw [List.flatMap_cons, List.length_append, List.length_append, List.length_singleton]
      omega
    · omega

theorem intercalate_append_singleton (d : Char) (part : List Char) (parts : List (List Char)) :
    [d].intercalate (part :: parts) ++ [d] = (part :: parts).flatMap fun part => part ++ [d] := by
  induction parts generalizing part with
  | nil => simp [List.intercalate_singleton]
  | cons part' parts ih =>
    rw [List.intercalate_cons_cons, List.append_assoc, ih]
    rfl

/-- **The pieces that are joined** are no longer than the text. -/
theorem length_joined_le (delim : Char → Bool) (d : Char) (text : List Char) :
    ([d].intercalate (pieces delim text)).length ≤ text.length := by
  have hended := length_ended_piecesFrom_le delim d [] text
  rw [List.length_nil, Nat.zero_add] at hended
  cases hpieces : pieces delim text with
  | nil => exact Nat.zero_le _
  | cons part parts =>
    rw [pieces] at hpieces
    rw [hpieces, ← intercalate_append_singleton, List.length_append, List.length_singleton]
      at hended
    omega

/-- **The pieces of lines** are the lines that are not empty. -/
theorem pieces_unlines {ls : List (List Char)} (h : ∀ l ∈ ls, '\n' ∉ l) :
    pieces (fun c => c = '\n') (unlines ls) = ls.filter (· ≠ []) := by
  induction ls with
  | nil => rfl
  | cons l ls ih =>
    obtain ⟨hl, hls⟩ := List.forall_mem_cons.1 h
    have hnone : ∀ c ∈ l, (fun c : Char => decide (c = '\n')) c = false := by
      intro c hc
      refine decide_eq_false fun heq => hl (heq ▸ hc)
    rw [unlines_cons, pieces, piecesFrom_append hnone (decide_eq_true rfl), ih hls]
    by_cases hempty : l = []
    · simp [hempty]
    · simp [hempty]

/-- Words, the first after `lead` blanks, each other one after one more than its number, and
`trail` more. -/
def spaced (lead : Nat) (word : List Char) (words : List (Nat × List Char)) (trail : Nat) :
    List Char :=
  List.replicate lead ' ' ++ (word ++
    ((words.flatMap fun p => List.replicate (p.1 + 1) ' ' ++ p.2) ++ List.replicate trail ' '))

/-- **Words between blanks** are read back. -/
theorem pieces_spaced {word : List Char} {words : List (Nat × List Char)}
    (h : ∀ w ∈ word :: words.map Prod.snd, w ≠ [] ∧ ' ' ∉ w) (lead trail : Nat) :
    pieces (fun c => c = ' ') (spaced lead word words trail) = word :: words.map Prod.snd := by
  have hblank : decide (' ' = ' ') = true := rfl
  rw [spaced, pieces_replicate hblank]
  induction words generalizing word with
  | nil =>
    obtain ⟨hne, hword⟩ := h word List.mem_cons_self
    have hnone : ∀ c ∈ word, decide (c = ' ') = false :=
      fun c hc => decide_eq_false fun heq => hword (heq ▸ hc)
    cases trail with
    | zero => simpa using pieces_single hne hnone
    | succ trail =>
      have hrest : pieces (fun c => c = ' ') (List.replicate trail ' ' ++ []) = [] :=
        pieces_replicate hblank trail []
      rw [List.append_nil] at hrest
      rw [List.flatMap_nil, List.nil_append, List.replicate_succ, pieces_cons hne hnone hblank,
        hrest]
      rfl
  | cons p words ih =>
    obtain ⟨hne, hword⟩ := h word List.mem_cons_self
    have hnone : ∀ c ∈ word, decide (c = ' ') = false :=
      fun c hc => decide_eq_false fun heq => hword (heq ▸ hc)
    have hwords : ∀ w ∈ p.2 :: words.map Prod.snd, w ≠ [] ∧ ' ' ∉ w :=
      fun w hw => h w (List.mem_cons_of_mem word hw)
    simp only [List.flatMap_cons, List.replicate_succ, List.cons_append, List.append_assoc]
    rw [pieces_cons hne hnone hblank, pieces_replicate hblank, List.map_cons]
    exact congrArg (word :: ·) (ih hwords)

/-! ## Numbers -/

/-- Why a conversion throws. -/
inductive ConversionFailure where
  | invalidArgument
  | outOfRange
deriving DecidableEq, Repr

/-- The value of decimal digits. -/
def decimal (digits : List Char) : Nat := digits.foldl (fun n c => 10 * n + (c.toNat - 48)) 0

/-- The sign at the start of a text, and the rest. -/
def sign (text : List Char) : Int × List Char :=
  if text.head? = some '-' then (-1, text.tail)
  else if text.head? = some '+' then (1, text.tail)
  else (1, text)

/-- The integer at the start of a text, after blanks. -/
def toInteger (text : List Char) : Except ConversionFailure Int :=
  let (sgn, text) := sign (text.dropWhile isSpace)
  let digits := text.takeWhile Char.isDigit
  if digits = [] then .error .invalidArgument else .ok (sgn * decimal digits)

/-- `stoi`. -/
def stoi (text : List Char) : Except ConversionFailure Int := do
  let n ← toInteger text
  if n < -2147483648 ∨ 2147483647 < n then .error .outOfRange else .ok n

/-- `stoull`, which takes a sign. -/
def stoull (text : List Char) : Except ConversionFailure Nat := do
  let n ← toInteger text
  if 18446744073709551615 < n.natAbs then .error .outOfRange
  else .ok (n % 18446744073709551616).toNat

/-- `>>` to an `int`, which does not throw. -/
def readInt (text : List Char) : Int :=
  match toInteger text with
  | .error _ => 0
  | .ok n => max (-2147483648) (min n 2147483647)

/-- `atoi`: the `long` that `strtol` gives, as an `int`. -/
def atoi (text : List Char) : Int :=
  match toInteger text with
  | .error _ => 0
  | .ok n => (max (-9223372036854775808) (min n 9223372036854775807)).bmod 4294967296

/-- `atoll`. -/
def atoll (text : List Char) : Int :=
  match toInteger text with
  | .error _ => 0
  | .ok n => max (-9223372036854775808) (min n 9223372036854775807)

/-- `%lld`: the number at the start of a text, after blanks, and the rest. -/
def scanNumber (text : List Char) : Option (Int × List Char) :=
  let (sgn, text) := sign (text.dropWhile isSpace)
  let digits := text.takeWhile Char.isDigit
  if digits = [] then none else some (sgn * decimal digits, text.dropWhile Char.isDigit)

/-- `sscanf` with numbers that are separated by these characters: those that are there. -/
def scanNumbers : List Char → List Char → List Int
  | [], text => ((scanNumber text).map Prod.fst).toList
  | sep :: seps, text =>
    match scanNumber text with
    | none => []
    | some (n, rest) => n :: if rest.head? = some sep then scanNumbers seps rest.tail else []

/-- The value of a hexadecimal digit. -/
def hexDigit (c : Char) : Option Nat :=
  if c.isDigit then some (c.toNat - 48)
  else if 'a' ≤ c ∧ c ≤ 'f' then some (c.toNat - 87)
  else if 'A' ≤ c ∧ c ≤ 'F' then some (c.toNat - 55)
  else none

def isHexDigit (c : Char) : Bool := (hexDigit c).isSome

/-- The value of hexadecimal digits. -/
def hexadecimal (digits : List Char) : Nat :=
  digits.foldl (fun n c => 16 * n + (hexDigit c).getD 0) 0

/-- `0x` before digits. -/
def dropHexPrefix (text : List Char) : List Char :=
  if text.head? = some '0' ∧ (text[1]? = some 'x' ∨ text[1]? = some 'X') then text.drop 2 else text

/-- `>> hex` to a `uint64_t`, and what is left of the stream, if it does not fail. -/
def scanHex (text : List Char) : Nat × Option (List Char) :=
  let (sgn, text) := sign (text.dropWhile isSpace)
  let text := dropHexPrefix text
  let digits := text.takeWhile isHexDigit
  if digits = [] then (0, none)
  else if 18446744073709551615 < hexadecimal digits then (18446744073709551615, none)
  else ((sgn * hexadecimal digits % 18446744073709551616).toNat, some (text.dropWhile isHexDigit))

theorem hexDigit_sign {c : Char} (h : isHexDigit c = true) :
    isSpace c = false ∧ c ≠ '-' ∧ c ≠ '+' ∧ c ≠ 'x' ∧ c ≠ 'X' := by
  have hne (d : Char) (hd : isHexDigit d = false) : c ≠ d := by
    rintro rfl
    rw [h] at hd
    cases hd
  refine ⟨?_, hne '-' (by decide), hne '+' (by decide), hne 'x' (by decide), hne 'X' (by decide)⟩
  have hrange : ∀ n ∈ [9, 10, 11, 12, 13], isHexDigit (Char.ofNat n) = false := by decide
  rw [isSpace, Bool.or_eq_false_iff]
  refine ⟨decide_eq_false (hne ' ' (by decide)), ?_⟩
  by_contra hblank
  have hin : 9 ≤ c.toNat ∧ c.toNat ≤ 13 := by simpa using hblank
  have hfalse := hrange c.toNat (by simp; omega)
  rw [Char.ofNat_toNat, h] at hfalse
  cases hfalse

/-- **Hexadecimal digits** are taken up to what is none. -/
theorem scanHex_digits {digits rest : List Char} {d : Char} (hne : digits ≠ [])
    (hdigits : ∀ c ∈ digits, isHexDigit c = true) (hd : isHexDigit d = false) (hx : d ≠ 'x')
    (hX : d ≠ 'X') :
    scanHex (digits ++ d :: rest) =
      if 18446744073709551615 < hexadecimal digits then (18446744073709551615, none)
      else (hexadecimal digits, some (d :: rest)) := by
  have htake : (digits ++ d :: rest).takeWhile isHexDigit = digits := by
    rw [List.takeWhile_append_of_pos hdigits, List.takeWhile_cons_of_neg (by simp [hd]),
      List.append_nil]
  have hleft : (digits ++ d :: rest).dropWhile isHexDigit = d :: rest := by
    rw [List.dropWhile_append_of_pos hdigits, List.dropWhile_cons_of_neg (by simp [hd])]
  obtain ⟨c, cs, rfl⟩ := List.exists_cons_of_ne_nil hne
  obtain ⟨hblank, hminus, hplus, -, -⟩ := hexDigit_sign (hdigits c List.mem_cons_self)
  have hdrop : (c :: cs ++ d :: rest).dropWhile isSpace = c :: cs ++ d :: rest := by
    rw [List.cons_append, List.dropWhile_cons_of_neg (by simp [hblank])]
  have hsign : sign (c :: cs ++ d :: rest) = (1, c :: cs ++ d :: rest) := by
    simp [sign, hminus, hplus]
  have hstarts : dropHexPrefix (c :: cs ++ d :: rest) = c :: cs ++ d :: rest := by
    refine if_neg fun h => ?_
    obtain ⟨-, h⟩ := h
    cases cs with
    | nil => simp [hx, hX] at h
    | cons c' cs =>
      have hc' := hexDigit_sign (hdigits c' (by simp))
      simp [hc'.2.2.2.1, hc'.2.2.2.2] at h
  simp only [scanHex, hdrop, hsign, hstarts, htake, hleft, if_neg hne]
  split_ifs with hlarge
  · rfl
  · rw [Int.one_mul, Int.emod_eq_of_lt (by omega) (by omega), Int.toNat_natCast]

/-- **Digits, after blanks**, are taken up to what is no digit. -/
theorem scanNumber_digits {blanks digits rest : List Char}
    (hblanks : ∀ c ∈ blanks, isSpace c = true) (hne : digits ≠ [])
    (hdigits : ∀ c ∈ digits, c.isDigit = true) (hrest : ∀ c ∈ rest.head?, c.isDigit = false) :
    scanNumber (blanks ++ (digits ++ rest)) = some ((decimal digits : Int), rest) := by
  obtain ⟨c, cs, rfl⟩ := List.exists_cons_of_ne_nil hne
  have hc : c.isDigit = true := hdigits c List.mem_cons_self
  have hdrop : (blanks ++ (c :: cs ++ rest)).dropWhile isSpace = c :: cs ++ rest := by
    rw [List.dropWhile_append_of_pos hblanks, List.cons_append, List.dropWhile_cons_of_neg]
    rw [isSpace_of_isDigit hc]
    exact Bool.false_ne_true
  have hsign : sign (c :: cs ++ rest) = (1, c :: cs ++ rest) := by
    have hhead (d : Char) (hd : d.isDigit = false) : (c :: cs ++ rest).head? ≠ some d := by
      intro heq
      rw [List.cons_append, List.head?_cons, Option.some.injEq] at heq
      rw [← heq, hc] at hd
      cases hd
    simp only [sign, hhead '-' (by decide), hhead '+' (by decide), if_false]
  have hnone : rest.takeWhile Char.isDigit = [] ∧ rest.dropWhile Char.isDigit = rest := by
    cases rest with
    | nil => exact ⟨rfl, rfl⟩
    | cons d rest =>
      have hd : d.isDigit = false := hrest d rfl
      simp [hd]
  have htake : (c :: cs ++ rest).takeWhile Char.isDigit = c :: cs := by
    rw [List.takeWhile_append_of_pos hdigits, hnone.1, List.append_nil]
  have hleft : (c :: cs ++ rest).dropWhile Char.isDigit = rest := by
    rw [List.dropWhile_append_of_pos hdigits, hnone.2]
  simp only [scanNumber]
  rw [hdrop, hsign]
  simp only
  rw [htake, hleft, if_neg (List.cons_ne_nil _ _), Int.one_mul]

/-- Digits, and a separator behind them. -/
theorem scanNumbers_digits {sep : Char} {digits : List Char} (hne : digits ≠ [])
    (hdigits : ∀ c ∈ digits, c.isDigit = true) (hsep : sep.isDigit = false)
    (seps rest : List Char) :
    scanNumbers (sep :: seps) (digits ++ sep :: rest) =
      (decimal digits : Int) :: scanNumbers seps rest := by
  have hscan : scanNumber ([] ++ (digits ++ sep :: rest)) =
      some ((decimal digits : Int), sep :: rest) := by
    refine scanNumber_digits (by simp) hne hdigits fun c hc => ?_
    obtain rfl : sep = c := Option.some.inj hc
    exact hsep
  rw [List.nil_append] at hscan
  simp [scanNumbers, hscan]

/-- Digits at the end. -/
theorem scanNumbers_last {digits : List Char} (hne : digits ≠ [])
    (hdigits : ∀ c ∈ digits, c.isDigit = true) :
    scanNumbers [] digits = [(decimal digits : Int)] := by
  have hscan : scanNumber ([] ++ (digits ++ [])) = some ((decimal digits : Int), []) :=
    scanNumber_digits (by simp) hne hdigits (by simp)
  rw [List.nil_append, List.append_nil] at hscan
  simp [scanNumbers, hscan]

theorem toInteger_eq (text : List Char) : toInteger text =
    (scanNumber text).elim (.error .invalidArgument) fun p => .ok p.1 := by
  simp only [toInteger, scanNumber]
  split_ifs <;> rfl

/-- Digits, after blanks. -/
theorem toInteger_digits {blanks digits : List Char} (hblanks : ∀ c ∈ blanks, isSpace c = true)
    (hne : digits ≠ []) (hdigits : ∀ c ∈ digits, c.isDigit = true) :
    toInteger (blanks ++ digits) = .ok (decimal digits) := by
  have hscan : scanNumber (blanks ++ (digits ++ [])) = some ((decimal digits : Int), []) :=
    scanNumber_digits hblanks hne hdigits (by simp)
  rw [List.append_nil] at hscan
  rw [toInteger_eq, hscan]
  rfl

/-- `stoi` of digits, before other text. -/
theorem stoi_digits {digits rest : List Char} (hne : digits ≠ [])
    (hdigits : ∀ c ∈ digits, c.isDigit = true) (hrest : ∀ c ∈ rest.head?, c.isDigit = false) :
    stoi (digits ++ rest) =
      if decimal digits ≤ 2147483647 then .ok (decimal digits : Int) else .error .outOfRange := by
  have hscan : scanNumber ([] ++ (digits ++ rest)) = some ((decimal digits : Int), rest) :=
    scanNumber_digits (by simp) hne hdigits hrest
  rw [List.nil_append] at hscan
  have hinteger : toInteger (digits ++ rest) = .ok (decimal digits : Int) := by
    rw [toInteger_eq, hscan]
    rfl
  simp only [stoi, hinteger]
  show (if (decimal digits : Int) < -2147483648 ∨ 2147483647 < (decimal digits : Int)
    then _ else _) = _
  by_cases hle : decimal digits ≤ 2147483647
  · rw [if_neg (by omega), if_pos hle]
  · rw [if_pos (by omega), if_neg hle]

theorem le_foldl_decimal (n : Nat) (digits : List Char) :
    n ≤ digits.foldl (fun n c => 10 * n + (c.toNat - 48)) n := by
  induction digits generalizing n with
  | nil => exact Nat.le_refl n
  | cons c digits ih => exact Nat.le_trans (by omega) (ih (10 * n + (c.toNat - 48)))

/-- More digits do not make a number smaller. -/
theorem decimal_le_append (digits more : List Char) :
    decimal digits ≤ decimal (digits ++ more) := by
  rw [decimal, decimal, List.foldl_append]
  exact le_foldl_decimal _ more

theorem decimal_toDigits (n : Nat) : decimal (Nat.toDigits 10 n) = n :=
  Nat.ofDigitChars_ten_toDigits

/-- Leading zeros do not change a number. -/
theorem decimal_zeros (zeros : Nat) (digits : List Char) :
    decimal (List.replicate zeros '0' ++ digits) = decimal digits := by
  induction zeros with
  | zero => rfl
  | succ zeros ih => exact ih

theorem isDigit_toDigits {n : Nat} {c : Char} (hc : c ∈ Nat.toDigits 10 n) : c.isDigit = true :=
  Nat.isDigit_of_mem_toDigits (by decide) (by decide) hc

theorem not_mem_toDigits {c : Char} (h : c.isDigit = false) (n : Nat) : c ∉ Nat.toDigits 10 n := by
  intro hc
  rw [isDigit_toDigits hc] at h
  cases h

/-- A printed number starts with a digit. -/
theorem exists_head?_toDigits (n : Nat) (rest : List Char) :
    ∃ c, (Nat.toDigits 10 n ++ rest).head? = some c ∧ c.isDigit = true := by
  obtain ⟨c, cs, hcons⟩ := List.exists_cons_of_ne_nil (@Nat.toDigits_ne_nil n 10)
  have hc : c ∈ Nat.toDigits 10 n := hcons ▸ List.mem_cons_self
  rw [hcons]
  exact ⟨c, rfl, isDigit_toDigits hc⟩

theorem head?_toDigits_ne {d : Char} (h : d.isDigit = false) (n : Nat) (rest : List Char) :
    (Nat.toDigits 10 n ++ rest).head? ≠ some d := by
  obtain ⟨c, hhead, hc⟩ := exists_head?_toDigits n rest
  intro hd
  obtain rfl : c = d := Option.some.inj (hhead.symm.trans hd)
  rw [hc] at h
  cases h

theorem stoi_nonneg {digits : List Char} (hdigits : ∀ c ∈ digits, c.isDigit = true) {n : Int}
    (h : stoi digits = .ok n) : 0 ≤ n := by
  by_cases hne : digits = []
  · subst hne
    cases h
  · have hinteger : toInteger ([] ++ digits) = .ok (decimal digits) :=
      toInteger_digits (by simp) hne hdigits
    rw [List.nil_append] at hinteger
    simp only [stoi, hinteger] at h
    change (if _ then _ else _) = _ at h
    split_ifs at h
    cases h
    exact Int.natCast_nonneg _

/-- Decimal digits, of any number. -/
structure Digits where
  chars : List Char
  chars_ne : chars ≠ []
  chars_digit : ∀ c ∈ chars, c.isDigit = true
deriving DecidableEq

namespace Digits

def value (d : Digits) : Nat := decimal d.chars

theorem stoi_chars (d : Digits) :
    stoi d.chars = if d.value ≤ 2147483647 then .ok (d.value : Int) else .error .outOfRange := by
  have hstoi : stoi (d.chars ++ []) = _ := stoi_digits d.chars_ne d.chars_digit (by simp)
  rwa [List.append_nil] at hstoi

/-- A number, as it is printed. -/
def ofNat (n : Nat) : Digits where
  chars := Nat.toDigits 10 n
  chars_ne := Nat.toDigits_ne_nil
  chars_digit := fun _ hc => isDigit_toDigits hc

theorem value_ofNat (n : Nat) : (ofNat n).value = n := decimal_toDigits n

end Digits

/-- A number as it is written: digits, after blanks. -/
structure Numeral where
  blanks : List Char
  digits : List Char
  blanks_space : ∀ c ∈ blanks, isSpace c = true
  digits_ne : digits ≠ []
  digits_digit : ∀ c ∈ digits, c.isDigit = true
  /-- It fits in an `int`. -/
  le_max : decimal digits ≤ 2147483647

namespace Numeral

def value (n : Numeral) : Nat := decimal n.digits

def text (n : Numeral) : List Char := n.blanks ++ n.digits

theorem toInteger_text (n : Numeral) : toInteger n.text = .ok n.value :=
  toInteger_digits n.blanks_space n.digits_ne n.digits_digit

/-- **A number is read back.** -/
theorem stoi_text (n : Numeral) : stoi n.text = .ok n.value := by
  have hle : n.value ≤ 2147483647 := n.le_max
  have hin : ¬ ((n.value : Int) < -2147483648 ∨ 2147483647 < (n.value : Int)) := by omega
  simp only [stoi, toInteger_text]
  exact if_neg hin

theorem stoull_text (n : Numeral) : stoull n.text = .ok n.value := by
  have hle : n.value ≤ 2147483647 := n.le_max
  have hin : ¬ 18446744073709551615 < (n.value : Int).natAbs := by omega
  have hmod : ((n.value : Int) % 18446744073709551616).toNat = n.value := by omega
  simp only [stoull, toInteger_text]
  refine (if_neg hin).trans ?_
  rw [hmod]

theorem atoi_text (n : Numeral) : atoi n.text = n.value := by
  have hle : n.value ≤ 2147483647 := n.le_max
  have hclamp : max (-9223372036854775808) (min (n.value : Int) 9223372036854775807) = n.value := by
    omega
  simp only [atoi, toInteger_text]
  rw [hclamp]
  exact Int.bmod_eq_of_le (by omega) (by omega)

/-- A number, as it is printed. -/
def ofNat (n : Nat) (h : n ≤ 2147483647) : Numeral where
  blanks := []
  digits := Nat.toDigits 10 n
  blanks_space := by simp
  digits_ne := Nat.toDigits_ne_nil
  digits_digit := fun c hc => isDigit_toDigits hc
  le_max := by rwa [decimal_toDigits]

theorem value_ofNat (n : Nat) (h : n ≤ 2147483647) : (ofNat n h).value = n := decimal_toDigits n

end Numeral

theorem atoi_toDigits {n : Nat} (h : n ≤ 2147483647) : atoi (Nat.toDigits 10 n) = n :=
  (Numeral.ofNat n h).atoi_text.trans (congrArg _ (Numeral.value_ofNat n h))

end Text
