import LibVsf.NodeCpuRefresh

/-!
# `NodeCpu`: the scan of a `cpulist`

A `cpulist` is cut at its commas by `substr(beg_idx, cnt)`, where `cnt` is the index of the comma
and not the length of the item. So an item is cut out with as many characters behind it as there are
before it. A range is converted up to the next comma all the same, but a number is taken for the
start of a range whose `-` is among these characters.

* `mem_cutPieces`: what is cut out for each item.
* `scans_iff`: the listed numbers are inserted, and nothing else, exactly when they all fit in an
  `int` and each range that a number is taken for the start of is `Harmless`: its end, as it is cut
  off, is not below the number, and all numbers up to it are listed.
-/

namespace LibVsf

open Std MapOfSets Writing

/-! ## The format -/

/-- A number or a range of a list. -/
inductive CpuItem where
  | one (x : Nat)
  | range (a b : Nat)

namespace CpuItem

def first : CpuItem → Nat
  | one x => x
  | range a _ => a

def last : CpuItem → Nat
  | one x => x
  | range _ b => b

/-- The largest `int`. -/
def maxInt : Nat := 2147483647

/-- The number, or the end of the range with one added, fits in an `int`. -/
def FitsInt : CpuItem → Prop
  | one x => x ≤ maxInt
  | range _ b => b < maxInt

theorem FitsInt.last_le {item : CpuItem} (h : item.FitsInt) : item.last ≤ maxInt := by
  cases item with
  | one x => exact h
  | range a b => exact Nat.le_of_lt h

def digits (n : Nat) : List Char := Nat.toDigits 10 n

def text : CpuItem → List Char
  | one x => digits x
  | range a b => digits a ++ '-' :: digits b

/-- The items after the first, each after a comma. -/
def rest (items : List CpuItem) : List Char := items.flatMap fun item => ',' :: item.text

/-- Where the item after these starts. -/
def start (pre : List CpuItem) : Nat := (pre.flatMap fun item => item.text ++ [',']).length

/-- The splits of a list at its items. -/
def splits (pre : List CpuItem) : List CpuItem → List (List CpuItem × CpuItem × List CpuItem)
  | [] => []
  | item :: items => (pre, item, items) :: splits (pre ++ [item]) items

theorem mem_splits {pre items : List CpuItem} {p : List CpuItem × CpuItem × List CpuItem} :
    p ∈ splits pre items ↔ ∃ mid, p.1 = pre ++ mid ∧ items = mid ++ p.2.1 :: p.2.2 := by
  induction items generalizing pre with
  | nil => simp [splits]
  | cons item items ih =>
    rw [splits, List.mem_cons, ih]
    constructor
    · rintro (rfl | ⟨mid, hpre, hitems⟩)
      · exact ⟨[], by simp⟩
      · exact ⟨item :: mid, by simp [hpre], by simp [hitems]⟩
    · intro h
      obtain ⟨mid, hpre, hitems⟩ := h
      cases mid with
      | nil =>
        left
        obtain ⟨rfl, rfl⟩ := List.cons_eq_cons.1 hitems
        simp [Prod.ext_iff, hpre]
      | cons item' mid =>
        right
        obtain ⟨rfl, rfl⟩ := List.cons_eq_cons.1 hitems
        exact ⟨mid, by simp [hpre], rfl⟩

theorem isDigit_digits {n : Nat} {c : Char} (hc : c ∈ digits n) : c.isDigit = true :=
  Text.isDigit_toDigits hc

theorem not_mem_digits {n : Nat} {c : Char} (hc : c.isDigit = false) : c ∉ digits n :=
  Text.not_mem_toDigits hc n

theorem text_ne (item : CpuItem) : item.text ≠ [] := by
  cases item <;> simp [text, digits, Nat.toDigits_ne_nil]

theorem comma_not_mem_text (item : CpuItem) : ',' ∉ item.text := by
  have hcomma (n : Nat) : ',' ∉ digits n := not_mem_digits rfl
  cases item <;> simp [text, hcomma]

end CpuItem

/-- A list of numbers and ranges, ascending and disjoint. -/
structure Cpulist where
  item : CpuItem
  items : List CpuItem
  first_le_last : ∀ i ∈ item :: items, i.first ≤ i.last
  ascending : (item :: items).Pairwise fun i j => i.last < j.first

namespace Cpulist

open CpuItem

variable (l : Cpulist)

/-- As the kernel prints it. -/
def text : List Char := l.item.text ++ rest l.items

/-- The number is one of the list, or in a range of it. -/
def Listed (n : Nat) : Prop := ∃ i ∈ l.item :: l.items, i.first ≤ n ∧ n ≤ i.last

end Cpulist

namespace NodeCpu

open CpuItem

/-! ## What is cut out -/

/-- What is cut out by the loop over the characters, from the character at `cnt` on. -/
def cutPieces (cpulist : List Char) : List Char → Nat → Nat → List (List Char)
  | [], _, _ => []
  | c :: cs, begIdx, cnt =>
    if c = ',' ∨ cnt + 1 = cpulist.length then
      let cnt := if cnt + 1 = cpulist.length then cnt + 1 else cnt
      (cpulist.drop begIdx).take cnt :: cutPieces cpulist cs (cnt + 1) (cnt + 1)
    else cutPieces cpulist cs begIdx (cnt + 1)

/-- The contents of a part that is cut out. -/
def pieceContents (nodeId : NodeId) (piece : List Char) : Contents :=
  match cpusOf piece with
  | .error failure =>
    { entries := unconverted nodeId piece, failure := some (.conversionFailed failure) }
  | .ok cpus => { entries := cpus.map (.cpu nodeId) }

theorem cpulistContents_eq (nodeId : NodeId) (cpulist cs : List Char) (begIdx cnt : Nat) :
    cpulistContents nodeId cpulist cs begIdx cnt =
      Log.all (pieceContents nodeId) (cutPieces cpulist cs begIdx cnt) := by
  induction cs generalizing begIdx cnt with
  | nil => rfl
  | cons c cs ih =>
    simp only [cpulistContents, cutPieces]
    by_cases hcut : c = ',' ∨ cnt + 1 = cpulist.length
    · rw [if_pos hcut, if_pos hcut, ih, Log.all, pieceContents]
      cases cpusOf ((cpulist.drop begIdx).take
        (if cnt + 1 = cpulist.length then cnt + 1 else cnt)) <;> rfl
    · rw [if_neg hcut, if_neg hcut]
      exact ih begIdx (cnt + 1)

/-- What `substr(beg_idx, cnt)` cuts out. -/
theorem take_drop_item (left piece rest : List Char) :
    ((left ++ (piece ++ rest)).drop left.length).take (left.length + piece.length) =
      piece ++ rest.take left.length := by
  rw [List.drop_left, Nat.add_comm, List.take_length_add_append]

/-- The scan from the item at `next` on, if there is one. -/
def laterPieces (cpulist : List Char) (next : Nat) : List CpuItem → List (List Char)
  | [] => []
  | item :: items => cutPieces cpulist (item.text ++ rest items) next next

/-- The scan from the middle of an item on. -/
theorem cutPieces_item {cpulist left : List Char} (done : List Char) {todo : List Char}
    {items : List CpuItem} {next : Nat} (hlist : cpulist = left ++ (done ++ (todo ++ rest items)))
    (hnext : next = left.length + done.length + todo.length + 1) (htodo : todo ≠ [])
    (hcomma : ',' ∉ todo) :
    cutPieces cpulist (todo ++ rest items) left.length (left.length + done.length) =
      (done ++ todo ++ (rest items).take left.length) :: laterPieces cpulist next items := by
  induction todo generalizing done with
  | nil => exact absurd rfl htodo
  | cons c todo ih =>
    obtain ⟨hc, hcomma⟩ := List.ne_and_not_mem_of_not_mem_cons hcomma
    cases todo with
    | cons c' todo =>
      have hcut : ¬ (c = ',' ∨ left.length + done.length + 1 = cpulist.length) := by
        rw [not_or, hlist]
        refine ⟨Ne.symm hc, ?_⟩
        simp only [List.length_append, List.length_cons]
        omega
      have hfurther := ih (done ++ [c]) (by simp [hlist])
        (by simp only [hnext, List.length_append, List.length_cons, List.length_nil]; omega)
        (List.cons_ne_nil _ _) hcomma
      rw [List.cons_append, cutPieces, if_neg hcut]
      rw [List.length_append, ← Nat.add_assoc, List.append_assoc done] at hfurther
      exact hfurther
    | nil =>
      have hpiece : (cpulist.drop left.length).take (left.length + done.length + 1) =
          done ++ [c] ++ (rest items).take left.length := by
        have htake := take_drop_item left (done ++ [c]) (rest items)
        rw [List.length_append, ← Nat.add_assoc] at htake
        rw [hlist, ← List.append_assoc done]
        exact htake
      rw [List.singleton_append, cutPieces]
      cases items with
      | nil =>
        have hend : left.length + done.length + 1 = cpulist.length := by
          simp [hlist, rest, Nat.add_assoc]
        rw [if_pos (.inr hend)]
        simp only [if_pos hend]
        rw [hpiece]
        rfl
      | cons item items =>
        have hrest : rest (item :: items) = ',' :: (item.text ++ rest items) := rfl
        have hlong : left.length + done.length + 1 + 1 < cpulist.length := by
          have htext := List.length_pos_iff.2 item.text_ne
          simp only [hlist, hrest, List.length_append, List.length_cons, List.length_nil]
          omega
        have hcut : ¬ (c = ',' ∨ left.length + done.length + 1 = cpulist.length) :=
          not_or.2 ⟨Ne.symm hc, by omega⟩
        rw [if_neg hcut, hrest, cutPieces, if_pos (.inl rfl)]
        simp only [if_neg hlong.ne]
        rw [hpiece, hrest, hnext]
        rfl

/-- What is cut out for an item, between these. -/
def piece (pre : List CpuItem) (item : CpuItem) (post : List CpuItem) : List Char :=
  item.text ++ (rest post).take (start pre)

theorem cutPieces_items (cpulist : List Char) (pre : List CpuItem) (item : CpuItem)
    (items : List CpuItem)
    (hlist : cpulist = (pre.flatMap fun item => item.text ++ [',']) ++ (item.text ++ rest items)) :
    cutPieces cpulist (item.text ++ rest items) (start pre) (start pre) =
      (splits pre (item :: items)).map fun p => piece p.1 p.2.1 p.2.2 := by
  induction items generalizing pre item with
  | nil => exact cutPieces_item [] hlist rfl item.text_ne item.comma_not_mem_text
  | cons item' items ih =>
    have hitem := cutPieces_item [] hlist rfl item.text_ne item.comma_not_mem_text
    have hstart : start (pre ++ [item]) = start pre + item.text.length + 1 := by
      simp [start, Nat.add_assoc]
    refine hitem.trans (congrArg (List.cons _) ?_)
    have hnext := ih (pre ++ [item]) item' (by simp [hlist, rest])
    rw [hstart] at hnext
    exact hnext

/-- **What is cut out of a list**: a part for each item. -/
theorem mem_cutPieces {l : Cpulist} {cut : List Char} :
    cut ∈ cutPieces l.text l.text 0 0 ↔
      ∃ pre item post, l.item :: l.items = pre ++ item :: post ∧ cut = piece pre item post := by
  have hpieces : cutPieces l.text l.text 0 0 =
      (splits [] (l.item :: l.items)).map fun p => piece p.1 p.2.1 p.2.2 :=
    cutPieces_items l.text [] l.item l.items rfl
  rw [hpieces, List.mem_map]
  constructor
  · intro h
    obtain ⟨⟨pre, item, post⟩, hp, rfl⟩ := h
    obtain ⟨mid, hpre, hitems⟩ := mem_splits.1 hp
    obtain rfl : pre = mid := hpre
    exact ⟨pre, item, post, hitems, rfl⟩
  · intro h
    obtain ⟨pre, item, post, hitems, rfl⟩ := h
    exact ⟨(pre, item, post), mem_splits.2 ⟨pre, rfl, hitems⟩, rfl⟩

/-! ## What an item is converted to -/

/-- The numbers from `a` to `b`. -/
def upTo (a b : Nat) : List HpthreadId :=
  (List.range ((b : Int) + 1 - a).toNat).map fun j => ⟨(a : Int) + j⟩

theorem mem_upTo {a b : Nat} {id : Int} : ⟨id⟩ ∈ upTo a b ↔ ∃ n : Nat, id = n ∧ a ≤ n ∧ n ≤ b := by
  simp only [upTo, List.mem_map, List.bind_eq_flatMap, List.mem_flatMap, List.mem_range,
    List.pure_def, List.mem_singleton, HpthreadId.mk.injEq]
  constructor
  · intro h
    obtain ⟨-, ⟨j, hj, rfl⟩, rfl⟩ := h
    exact ⟨a + j, by omega, by omega, by omega⟩
  · intro h
    obtain ⟨n, rfl, ha, hb⟩ := h
    exact ⟨(n - a : ℕ), ⟨n - a, by omega, rfl⟩, by omega⟩

/-- What follows an item does not start with a digit. -/
theorem head?_take_rest (items : List CpuItem) (n : Nat) :
    ∀ c ∈ ((rest items).take n).head?, c.isDigit = false := by
  intro c hc
  cases n with
  | zero => cases hc
  | succ n =>
    cases items with
    | nil => cases hc
    | cons item items =>
      obtain rfl : ',' = c := Option.some.inj hc
      rfl

theorem stoi_number {n : Nat} {text : List Char} (htext : ∀ c ∈ text.head?, c.isDigit = false)
    {id : Int} : Text.stoi (digits n ++ text) = .ok id ↔ n ≤ maxInt ∧ id = n := by
  have hdigits : ∀ c ∈ digits n, c.isDigit = true := fun c hc => isDigit_digits hc
  rw [digits, Text.stoi_digits Nat.toDigits_ne_nil hdigits htext, Text.decimal_toDigits, ← maxInt]
  split_ifs with hle
  · rw [and_iff_right hle, Except.ok.injEq, eq_comm]
  · refine iff_of_false (by simp) fun h => hle h.1

/-- The number that the first `k` digits make. -/
def cut (b k : Nat) : Nat := Text.decimal ((digits b).take k)

theorem cut_mono (b : Nat) {k k' : Nat} (h : k ≤ k') : cut b k ≤ cut b k' := by
  have htake : (digits b).take k' = (digits b).take k ++ ((digits b).drop k).take (k' - k) := by
    rw [← List.take_add, Nat.add_sub_cancel' h]
  rw [cut, cut, htake]
  exact Text.decimal_le_append _ _

theorem cut_le (b k : Nat) : cut b k ≤ b := by
  have hall : Text.decimal ((digits b).take k ++ (digits b).drop k) = b := by
    rw [List.take_append_drop, digits, Text.decimal_toDigits]
  exact (Text.decimal_le_append _ _).trans hall.le

/-- A number that may be cut off. -/
theorem stoi_cut {b k : Nat} {items : List CpuItem} {id : Int} :
    Text.stoi ((digits b ++ rest items).take k) = .ok id ↔
      0 < k ∧ cut b k ≤ maxInt ∧ id = cut b k := by
  rw [List.take_append]
  rcases Nat.eq_zero_or_pos k with rfl | hk
  · refine iff_of_false ?_ fun h => absurd h.1 (Nat.lt_irrefl 0)
    have hempty : Text.stoi [] = .error .invalidArgument := rfl
    rw [List.take_zero, Nat.zero_sub, List.take_zero, List.append_nil, hempty]
    intro h
    cases h
  · have hne : (digits b).take k ≠ [] := by
      rw [Ne, List.take_eq_nil_iff]
      exact not_or.2 ⟨by omega, Nat.toDigits_ne_nil⟩
    rw [Text.stoi_digits hne (fun c hc => isDigit_digits (List.mem_of_mem_take hc))
      (head?_take_rest items _), and_iff_right hk, ← cut, ← maxInt]
    split_ifs with hle
    · rw [and_iff_right hle, Except.ok.injEq, eq_comm]
    · exact iff_of_false (by simp) fun h => hle h.1

theorem cpusOf_no_dash {piece : List Char} (h : '-' ∉ piece) :
    cpusOf piece = do
      let cpu ← Text.stoi piece
      return [⟨cpu⟩] := if_neg h

theorem idxOf_dash {l r : List Char} (h : '-' ∉ l) : (l ++ '-' :: r).idxOf '-' = l.length := by
  rw [List.idxOf_append_of_notMem h, List.idxOf_cons_self, Nat.add_zero]

/-- What is converted to the end of a range. -/
theorem right_of_dash {l r : List Char} (h : '-' ∉ l) :
    ((l ++ '-' :: r).drop ((l ++ '-' :: r).idxOf '-' + 1)).take (l ++ '-' :: r).length = r := by
  have hdrop : (l ++ '-' :: r).drop (l.length + 1) = r := by
    rw [← List.drop_drop, List.drop_left]
    rfl
  rw [idxOf_dash h, hdrop]
  exact List.take_of_length_le (by simp; omega)

theorem cpusOf_dash {l r : List Char} (h : '-' ∉ l) :
    cpusOf (l ++ '-' :: r) = do
      let cpuBeg ← Text.stoi l
      let cpuEnd ← Text.stoi r
      return (List.range (cpuEnd + 1 - cpuBeg).toNat).map fun j => ⟨cpuBeg + j⟩ := by
  rw [cpusOf, if_pos (by simp)]
  simp only [right_of_dash h]
  rw [idxOf_dash h, List.take_left]

/-- The end of the range that a part is taken for. The loop over its numbers adds one to it. -/
def rangeEnd (piece : List Char) : Option Int :=
  if '-' ∈ piece then
    (Text.stoi ((piece.drop (piece.idxOf '-' + 1)).take piece.length)).toOption
  else none

theorem rangeEnd_eq_some {l r : List Char} (h : '-' ∉ l) {e : Int} :
    rangeEnd (l ++ '-' :: r) = some e ↔ Text.stoi r = .ok e := by
  rw [rangeEnd, if_pos (by simp), right_of_dash h]
  cases Text.stoi r <;> simp [Except.toOption]

/-- A range of two numbers that convert. -/
theorem cpusOf_pair {l r : List Char} (h : '-' ∉ l) {a b : Nat} {P Q : Prop}
    (hl : ∀ id, Text.stoi l = .ok id ↔ P ∧ id = a)
    (hr : ∀ id, Text.stoi r = .ok id ↔ Q ∧ id = b) {cpus : List HpthreadId} :
    cpusOf (l ++ '-' :: r) = .ok cpus ↔ P ∧ Q ∧ cpus = upTo a b := by
  rw [cpusOf_dash h, Runs.bind_eq_ok]
  constructor
  · intro h
    obtain ⟨id, hid, hrest⟩ := h
    obtain ⟨hP, rfl⟩ := (hl id).1 hid
    obtain ⟨id', hid', hcpus⟩ := Runs.bind_eq_ok.1 hrest
    obtain ⟨hQ, rfl⟩ := (hr id').1 hid'
    exact ⟨hP, hQ, (Except.ok.inj hcpus).symm⟩
  · intro h
    obtain ⟨hP, hQ, rfl⟩ := h
    exact ⟨a, (hl a).2 ⟨hP, rfl⟩, Runs.bind_eq_ok.2 ⟨b, (hr b).2 ⟨hQ, rfl⟩, rfl⟩⟩

/-! ### The parts that are cut out -/

theorem piece_range (pre post : List CpuItem) (a b : Nat) :
    piece pre (.range a b) post =
      digits a ++ '-' :: (digits b ++ (rest post).take (start pre)) := by
  simp [piece, CpuItem.text]

theorem cpusOf_range {pre post : List CpuItem} {a b : Nat} {cpus : List HpthreadId} :
    cpusOf (piece pre (.range a b) post) = .ok cpus ↔
      a ≤ maxInt ∧ b ≤ maxInt ∧ cpus = upTo a b := by
  have hfirst (id : Int) : Text.stoi (digits a) = .ok id ↔ a ≤ maxInt ∧ id = a := by
    have hnil : ∀ c ∈ ([] : List Char).head?, c.isDigit = false := by simp
    have hnumber : Text.stoi (digits a ++ []) = .ok id ↔ a ≤ maxInt ∧ id = a := stoi_number hnil
    rwa [List.append_nil] at hnumber
  rw [piece_range]
  exact cpusOf_pair (not_mem_digits rfl) hfirst fun id => stoi_number (head?_take_rest post _)

theorem rangeEnd_range {pre post : List CpuItem} {a b : Nat} {e : Int} :
    rangeEnd (piece pre (.range a b) post) = some e ↔ b ≤ maxInt ∧ e = b := by
  rw [piece_range, rangeEnd_eq_some (not_mem_digits rfl)]
  exact stoi_number (head?_take_rest post _)

/-- What stands between a number and the `-` of the next range. -/
def between (ones : List Nat) (a : Nat) : List Char := rest (ones.map .one) ++ ',' :: digits a

theorem dash_not_mem_ones (ones : List Nat) : '-' ∉ rest (ones.map .one) := by
  intro hmem
  simp only [rest, List.mem_flatMap, List.mem_map] at hmem
  obtain ⟨-, ⟨x, -, rfl⟩, hmem⟩ := hmem
  have hdigits : '-' ∉ digits x := not_mem_digits rfl
  simp [CpuItem.text, hdigits] at hmem

theorem dash_not_mem_between (ones : List Nat) (a : Nat) : '-' ∉ between ones a := by
  have hdigits : '-' ∉ digits a := not_mem_digits rfl
  simp [between, dash_not_mem_ones, hdigits]

theorem rest_range (ones : List Nat) (a b : Nat) (post : List CpuItem) :
    rest (ones.map .one ++ .range a b :: post) =
      between ones a ++ '-' :: (digits b ++ rest post) := by
  simp [rest, between, CpuItem.text]

theorem dash_not_mem_near {pre post : List CpuItem} (h : '-' ∉ (rest post).take (start pre))
    (x : Nat) : '-' ∉ piece pre (.one x) post := by
  have hdigits : '-' ∉ digits x := not_mem_digits rfl
  simp [piece, CpuItem.text, hdigits, h]

/-- A number behind which no `-` is cut out. -/
theorem cpusOf_near {pre post : List CpuItem} {x : Nat} {cpus : List HpthreadId}
    (h : '-' ∉ (rest post).take (start pre)) :
    cpusOf (piece pre (.one x) post) = .ok cpus ↔ x ≤ maxInt ∧ cpus = [⟨x⟩] := by
  rw [cpusOf_no_dash (dash_not_mem_near h x), Runs.bind_eq_ok]
  have hnumber (id : Int) : Text.stoi (piece pre (.one x) post) = .ok id ↔ x ≤ maxInt ∧ id = x :=
    stoi_number (head?_take_rest post (start pre))
  constructor
  · intro h
    obtain ⟨id, hid, hcpus⟩ := h
    obtain ⟨hle, rfl⟩ := (hnumber id).1 hid
    exact ⟨hle, (Except.ok.inj hcpus).symm⟩
  · intro h
    obtain ⟨hle, rfl⟩ := h
    exact ⟨x, (hnumber x).2 ⟨hle, rfl⟩, rfl⟩

theorem rangeEnd_near {pre post : List CpuItem} (h : '-' ∉ (rest post).take (start pre)) (x : Nat) :
    rangeEnd (piece pre (.one x) post) = none := if_neg (dash_not_mem_near h x)

theorem piece_far {pre : List CpuItem} {ones : List Nat} {a k : Nat}
    (h : start pre = (between ones a).length + 1 + k) (x b : Nat) (post : List CpuItem) :
    piece pre (.one x) (ones.map .one ++ .range a b :: post) =
      (digits x ++ between ones a) ++ '-' :: (digits b ++ rest post).take k := by
  rw [piece, rest_range, h, Nat.add_assoc, List.take_length_add_append, Nat.add_comm 1,
    List.take_succ_cons, CpuItem.text, List.append_assoc]

theorem dash_not_mem_far (x : Nat) (ones : List Nat) (a : Nat) :
    '-' ∉ digits x ++ between ones a := by
  have hdigits : '-' ∉ digits x := not_mem_digits rfl
  simp [hdigits, dash_not_mem_between]

/-- A number that is taken for the start of a range. -/
theorem cpusOf_far {pre post : List CpuItem} {x a b k : Nat} {ones : List Nat}
    {cpus : List HpthreadId} (h : start pre = (between ones a).length + 1 + k) :
    cpusOf (piece pre (.one x) (ones.map .one ++ .range a b :: post)) = .ok cpus ↔
      x ≤ maxInt ∧ (0 < k ∧ cut b k ≤ maxInt) ∧ cpus = upTo x (cut b k) := by
  have hcomma : ∀ c ∈ (between ones a).head?, c.isDigit = false := by
    intro c hc
    cases ones with
    | nil =>
      obtain rfl : ',' = c := Option.some.inj hc
      rfl
    | cons y ones =>
      obtain rfl : ',' = c := Option.some.inj hc
      rfl
  rw [piece_far h]
  refine cpusOf_pair (dash_not_mem_far x ones a) (fun id => stoi_number hcomma) fun id => ?_
  rw [stoi_cut, and_assoc]

theorem rangeEnd_far {pre post : List CpuItem} {x a b k : Nat} {ones : List Nat} {e : Int}
    (h : start pre = (between ones a).length + 1 + k) :
    rangeEnd (piece pre (.one x) (ones.map .one ++ .range a b :: post)) = some e ↔
      0 < k ∧ cut b k ≤ maxInt ∧ e = cut b k := by
  rw [piece_far h, rangeEnd_eq_some (dash_not_mem_far x ones a), stoi_cut]

/-! ## What is inserted -/

/-- A list of items has a first range, or none. -/
theorem ones_or_range (post : List CpuItem) : (∃ ones : List Nat, post = ones.map .one) ∨
    ∃ (ones : List Nat) (a b : Nat) (post' : List CpuItem),
      post = ones.map CpuItem.one ++ .range a b :: post' := by
  induction post with
  | nil => exact .inl ⟨[], rfl⟩
  | cons item post ih =>
    cases item with
    | range a b => exact .inr ⟨[], a, b, post, rfl⟩
    | one x =>
      rcases ih with ⟨ones, rfl⟩ | ⟨ones, a, b, post', rfl⟩
      · exact .inl ⟨x :: ones, rfl⟩
      · exact .inr ⟨x :: ones, a, b, post', rfl⟩

/-- What is cut out behind a number has a `-`, or not. -/
theorem near_or_far (pre post : List CpuItem) : '-' ∉ (rest post).take (start pre) ∨
    ∃ (ones : List Nat) (a b : Nat) (post' : List CpuItem) (k : Nat),
      post = ones.map CpuItem.one ++ .range a b :: post' ∧
      start pre = (between ones a).length + 1 + k := by
  rcases ones_or_range post with ⟨ones, rfl⟩ | ⟨ones, a, b, post', rfl⟩
  · exact .inl fun hmem => dash_not_mem_ones ones (List.mem_of_mem_take hmem)
  · by_cases hle : start pre ≤ (between ones a).length
    · left
      rw [rest_range, List.take_append_of_le_length hle]
      exact fun hmem => dash_not_mem_between ones a (List.mem_of_mem_take hmem)
    · exact .inr ⟨ones, a, b, post', start pre - (between ones a).length - 1, rfl, by omega⟩

/-- Two splits of a list are the same, or the one is at an item behind that of the other. -/
theorem splits_cases {α : Type} {pre post pre' post' : List α} {i i' : α}
    (h : pre ++ i :: post = pre' ++ i' :: post') :
    (pre' = pre ∧ i' = i ∧ post' = post) ∨
      (∃ mid, pre' = pre ++ i :: mid ∧ post = mid ++ i' :: post') ∨
      ∃ mid, pre = pre' ++ i' :: mid ∧ post' = mid ++ i :: post := by
  rcases List.append_eq_append_iff.1 h with ⟨as, rfl, has⟩ | ⟨bs, rfl, hbs⟩
  · cases as with
    | nil =>
      obtain ⟨rfl, rfl⟩ := List.cons_eq_cons.1 has
      exact .inl ⟨List.append_nil _, rfl, rfl⟩
    | cons j as =>
      obtain ⟨rfl, rfl⟩ := List.cons_eq_cons.1 has
      exact .inr (.inl ⟨as, rfl, rfl⟩)
  · cases bs with
    | nil =>
      obtain ⟨rfl, rfl⟩ := List.cons_eq_cons.1 hbs
      exact .inl ⟨(List.append_nil _).symm, rfl, rfl⟩
    | cons j bs =>
      obtain ⟨rfl, rfl⟩ := List.cons_eq_cons.1 hbs
      exact .inr (.inr ⟨bs, rfl, rfl⟩)

/-- What is inserted for an item is not below it, and above it only for a number that is taken for
the start of a range. -/
theorem bounds_of_mem {pre post : List CpuItem} {item : CpuItem} {cpus : List HpthreadId} {n : Nat}
    (h : cpusOf (piece pre item post) = .ok cpus) (hn : ⟨n⟩ ∈ cpus) :
    item.first ≤ n ∧ (n ≤ item.last ∨
      ∃ (x : Nat) (ones : List Nat) (a b : Nat) (post' : List CpuItem) (k : Nat), item = .one x ∧
      post = ones.map CpuItem.one ++ .range a b :: post' ∧
      start pre = (between ones a).length + 1 + k ∧ n ≤ cut b k) := by
  cases item with
  | range a b =>
    obtain ⟨-, -, rfl⟩ := cpusOf_range.1 h
    obtain ⟨m, hm, ha, hb⟩ := mem_upTo.1 hn
    obtain rfl : n = m := Int.ofNat.inj hm
    exact ⟨ha, .inl hb⟩
  | one x =>
    rcases near_or_far pre post with hnear | ⟨ones, a, b, post', k, rfl, hk⟩
    · obtain ⟨-, rfl⟩ := (cpusOf_near hnear).1 h
      have heq : (n : Int) = x := by simpa using hn
      exact ⟨by simp only [CpuItem.first]; omega, .inl (by simp only [CpuItem.last]; omega)⟩
    · obtain ⟨-, -, rfl⟩ := (cpusOf_far hk).1 h
      obtain ⟨m, hm, hx, hcut⟩ := mem_upTo.1 hn
      obtain rfl : n = m := Int.ofNat.inj hm
      exact ⟨hx, .inr ⟨x, ones, a, b, post', k, rfl, rfl, hk, hcut⟩⟩

theorem failure_pieceContents {nodeId : NodeId} {piece : List Char} :
    (pieceContents nodeId piece).failure = none ↔ ∃ cpus, cpusOf piece = .ok cpus := by
  rw [pieceContents]
  cases cpusOf piece <;> simp

theorem mem_pieceContents {nodeId nodeId' : NodeId} {piece : List Char} {hpthreadId : HpthreadId} :
    Entry.cpu nodeId' hpthreadId ∈ (pieceContents nodeId piece).entries ↔
      nodeId' = nodeId ∧ ∃ cpus, cpusOf piece = .ok cpus ∧ hpthreadId ∈ cpus := by
  rw [pieceContents]
  cases cpusOf piece with
  | error failure =>
    simp only [unconverted]
    split_ifs <;> simp
  | ok cpus =>
    simp only [List.mem_map, Entry.cpu.injEq, Except.ok.injEq, exists_eq_left']
    constructor
    · intro h
      obtain ⟨hpthreadId', hmem, rfl, rfl⟩ := h
      exact ⟨rfl, hmem⟩
    · intro h
      obtain ⟨rfl, hmem⟩ := h
      exact ⟨hpthreadId, hmem, rfl, rfl⟩

/-- The scan inserts into `node_hpthread_` only. -/
theorem foldl_insertEntry_frame {entries : List Entry}
    (h : ∀ entry ∈ entries, ∃ nodeId, entry.nodeId = some nodeId) (s : NodeCpu) :
    { entries.foldl insertEntry s with nodeHpthread := s.nodeHpthread } = s := by
  induction entries generalizing s with
  | nil => rfl
  | cons entry entries ih =>
    obtain ⟨nodeId, hnodeId⟩ := h entry List.mem_cons_self
    have hrest := ih (fun entry hentry => h entry (List.mem_cons_of_mem _ hentry))
      (s.insertEntry entry)
    have hset := congrArg (fun t : NodeCpu => { t with nodeHpthread := s.nodeHpthread }) hrest
    cases entry with
    | node nodeId | cpu nodeId hpthreadId => exact hset
    | hpthread cur => cases hnodeId

end NodeCpu

namespace Cpulist

open CpuItem NodeCpu

variable (l : Cpulist)

/-- The ranges that numbers are taken for the start of add nothing: with `k` digits of its end cut
out, such a range is not empty, and its numbers are listed. -/
def Harmless : Prop := ∀ pre x ones a b post k,
  l.item :: l.items = pre ++ .one x :: (ones.map CpuItem.one ++ .range a b :: post) →
    start pre = (between ones a).length + 1 + k →
      0 < k ∧ x ≤ cut b k ∧ ∀ n, x ≤ n → n ≤ cut b k → l.Listed n

/-- All parts convert, and what is inserted is what is listed. -/
def Scanned : Prop :=
  (∀ pre item post, l.item :: l.items = pre ++ item :: post →
    ∃ cpus, cpusOf (piece pre item post) = .ok cpus) ∧
  ∀ id : Int, (∃ pre item post cpus, l.item :: l.items = pre ++ item :: post ∧
      cpusOf (piece pre item post) = .ok cpus ∧ ⟨id⟩ ∈ cpus) ↔ ∃ n : Nat, id = n ∧ l.Listed n

/-- An item is below those behind it. -/
theorem last_lt_first {pre mid post : List CpuItem} {i j : CpuItem}
    (h : l.item :: l.items = pre ++ i :: (mid ++ j :: post)) : i.last < j.first := by
  have hascending := l.ascending
  rw [h] at hascending
  have hsplit := (List.pairwise_append.1 hascending).2.1
  exact List.rel_of_pairwise_cons hsplit (List.mem_append_right _ List.mem_cons_self)

/-- What is inserted for the items when they are harmless. -/
theorem takes_of_harmless (hmax : ∀ i ∈ l.item :: l.items, i.last ≤ maxInt) (h : l.Harmless)
    {pre post : List CpuItem} {item : CpuItem} (hitems : l.item :: l.items = pre ++ item :: post) :
    ∃ cpus, cpusOf (piece pre item post) = .ok cpus ∧
      (∀ n : Nat, item.first ≤ n → n ≤ item.last → ⟨n⟩ ∈ cpus) ∧
      ∀ id : Int, ⟨id⟩ ∈ cpus → ∃ n : Nat, id = n ∧ l.Listed n := by
  have hmem : item ∈ l.item :: l.items := by
    rw [hitems]
    exact List.mem_append_right _ List.mem_cons_self
  have hlast := hmax item hmem
  cases item with
  | range a b =>
    have hab : a ≤ b := l.first_le_last _ hmem
    refine ⟨upTo a b, cpusOf_range.2 ⟨hab.trans hlast, hlast, rfl⟩, fun n ha hb => ?_,
      fun id hid => ?_⟩
    · exact mem_upTo.2 ⟨n, rfl, ha, hb⟩
    · obtain ⟨n, rfl, ha, hb⟩ := mem_upTo.1 hid
      exact ⟨n, rfl, _, hmem, ha, hb⟩
  | one x =>
    rcases near_or_far pre post with hnear | ⟨ones, a, b, post', k, rfl, hk⟩
    · refine ⟨[⟨x⟩], (cpusOf_near hnear).2 ⟨hlast, rfl⟩, fun n hx hx' => ?_, fun id hid => ?_⟩
      · obtain rfl : n = x := Nat.le_antisymm hx' hx
        exact List.mem_cons_self
      · obtain rfl : id = x := by simpa using hid
        exact ⟨x, rfl, _, hmem, Nat.le_refl x, Nat.le_refl x⟩
    · obtain ⟨hpos, hx, hlisted⟩ := h pre x ones a b post' k hitems hk
      have hb : b ≤ maxInt := by
        refine hmax (.range a b) ?_
        rw [hitems]
        simp
      have hcut := (cut_le b k).trans hb
      refine ⟨upTo x (cut b k), (cpusOf_far hk).2 ⟨hlast, ⟨hpos, hcut⟩, rfl⟩, fun n hx' hx'' => ?_,
        fun id hid => ?_⟩
      · obtain rfl : n = x := Nat.le_antisymm hx'' hx'
        exact mem_upTo.2 ⟨n, rfl, hx', hx⟩
      · obtain ⟨n, rfl, hx', hn⟩ := mem_upTo.1 hid
        exact ⟨n, rfl, hlisted n hx' hn⟩

theorem scanned_of_harmless (hmax : ∀ i ∈ l.item :: l.items, i.last ≤ maxInt) (h : l.Harmless) :
    l.Scanned := by
  refine ⟨fun pre item post hitems => ?_, fun id => ⟨?_, ?_⟩⟩
  · obtain ⟨cpus, hcpus, -⟩ := l.takes_of_harmless hmax h hitems
    exact ⟨cpus, hcpus⟩
  · intro h
    obtain ⟨pre, item, post, cpus, hitems, hcpus, hid⟩ := h
    obtain ⟨cpus', hcpus', -, hlisted⟩ := l.takes_of_harmless hmax h hitems
    obtain rfl : cpus = cpus' := Except.ok.inj (hcpus.symm.trans hcpus')
    exact hlisted id hid
  · intro h
    obtain ⟨n, rfl, item, hitem, hfirst, hlast⟩ := h
    obtain ⟨pre, post, hitems⟩ := List.append_of_mem hitem
    obtain ⟨cpus, hcpus, hall, -⟩ := l.takes_of_harmless hmax h hitems
    exact ⟨pre, item, post, cpus, hitems, hcpus, hall n hfirst hlast⟩

/-- The numbers of a list that is scanned fit in an `int`. -/
theorem last_le_of_scanned (h : l.Scanned) {i : CpuItem} (hi : i ∈ l.item :: l.items) :
    i.last ≤ maxInt := by
  obtain ⟨pre, post, hitems⟩ := List.append_of_mem hi
  obtain ⟨cpus, hcpus⟩ := h.1 pre i post hitems
  cases i with
  | range a b => exact (cpusOf_range.1 hcpus).2.1
  | one x =>
    rcases near_or_far pre post with hnear | ⟨ones, a, b, post', k, rfl, hk⟩
    · exact ((cpusOf_near hnear).1 hcpus).1
    · exact ((cpusOf_far hk).1 hcpus).1

theorem length_between_le {mid : List CpuItem} {ones ones' : List Nat} {x : Nat}
    (h : ones'.map CpuItem.one = mid ++ .one x :: ones.map .one) (a : Nat) :
    (between ones a).length ≤ (between ones' a).length := by
  rw [between, between, h]
  simp only [rest, List.flatMap_append, List.flatMap_cons, List.length_append, List.length_cons]
  omega

/-- A number that is inserted is not above the end that is cut out behind it: no number before it
reaches it when it does not itself. -/
theorem le_cut_of_scanned (h : l.Scanned) {pre post : List CpuItem} {x a b k : Nat}
    {ones : List Nat}
    (hitems : l.item :: l.items = pre ++ .one x :: (ones.map CpuItem.one ++ .range a b :: post))
    (hk : start pre = (between ones a).length + 1 + k) : x ≤ cut b k := by
  have hlisted : l.Listed x := by
    refine ⟨.one x, ?_, Nat.le_refl x, Nat.le_refl x⟩
    rw [hitems]
    exact List.mem_append_right _ List.mem_cons_self
  obtain ⟨pre', item, post', cpus, hitems', hcpus, hx⟩ := (h.2 x).2 ⟨x, rfl, hlisted⟩
  obtain ⟨hfirst, hreach⟩ := bounds_of_mem hcpus hx
  rcases splits_cases (hitems.symm.trans hitems') with
    ⟨rfl, rfl, rfl⟩ | ⟨mid, -, hpost⟩ | ⟨mid, rfl, hpost'⟩
  · obtain ⟨-, -, rfl⟩ := (cpusOf_far hk).1 hcpus
    obtain ⟨n, hn, -, hcut⟩ := mem_upTo.1 hx
    obtain rfl : x = n := Int.ofNat.inj hn
    exact hcut
  · -- An item behind it inserts larger numbers only.
    rw [hpost] at hitems
    have hlt : x < item.first := l.last_lt_first hitems
    omega
  · -- An item before it reaches it as the start of a range only.
    rw [hpost'] at hitems'
    have hlt : item.last < x := l.last_lt_first hitems'
    rcases hreach with hle | ⟨y, ones', a', b', post'', k', rfl, hrange, hk', hcut⟩
    · omega
    · rw [hpost', ← List.cons_append, ← List.append_assoc] at hrange
      rcases splits_cases hrange with ⟨hones, hsame, rfl⟩ | ⟨mid', hones, -⟩ | ⟨mid', hones, -⟩
      · -- It is the same range, of which less is cut out.
        obtain ⟨rfl, rfl⟩ := CpuItem.range.inj hsame
        have hbetween := length_between_le hones a'
        have hstart : start pre' ≤ start (pre' ++ .one y :: mid) := by simp [start]
        exact hcut.trans (cut_mono b' (by omega))
      · have hmem : CpuItem.range a b ∈ ones'.map CpuItem.one := by
          rw [hones]
          exact List.mem_append_right _ List.mem_cons_self
        simp at hmem
      · -- It is a range before the number.
        have hmem : CpuItem.range a' b' ∈ mid := by
          have hall : CpuItem.range a' b' ∈ mid ++ .one x :: ones.map .one := by
            rw [hones]
            exact List.mem_append_right _ List.mem_cons_self
          simpa using hall
        obtain ⟨mid₁, mid₂, rfl⟩ := List.append_of_mem hmem
        have hsplit : l.item :: l.items = (pre' ++ .one y :: mid₁) ++
            .range a' b' :: (mid₂ ++ .one x :: (ones.map .one ++ .range a b :: post)) := by
          simp [hitems]
        have hbelow : b' < x := l.last_lt_first hsplit
        have hle := hcut.trans (cut_le b' k')
        omega

theorem harmless_of_scanned (h : l.Scanned) : l.Harmless := by
  intro pre x ones a b post k hitems hk
  obtain ⟨cpus, hcpus⟩ := h.1 _ _ _ hitems
  obtain ⟨-, ⟨hpos, -⟩, rfl⟩ := (cpusOf_far hk).1 hcpus
  refine ⟨hpos, l.le_cut_of_scanned h hitems hk, fun n hx hn => ?_⟩
  obtain ⟨m, hm, hlisted⟩ := (h.2 n).1
    ⟨_, _, _, _, hitems, hcpus, mem_upTo.2 ⟨n, rfl, hx, hn⟩⟩
  obtain rfl : n = m := Int.ofNat.inj hm
  exact hlisted

theorem scanned_iff :
    l.Scanned ↔ (∀ i ∈ l.item :: l.items, i.last ≤ maxInt) ∧ l.Harmless :=
  ⟨fun h => ⟨fun _ hi => l.last_le_of_scanned h hi, l.harmless_of_scanned h⟩,
    fun h => l.scanned_of_harmless h.1 h.2⟩

/-! ## The scan -/

/-- The contents of the list. -/
def contents (nodeId : NodeId) : Contents := cpulistContents nodeId l.text l.text 0 0

theorem failure_contents {nodeId : NodeId} : (l.contents nodeId).failure = none ↔
    ∀ pre item post, l.item :: l.items = pre ++ item :: post →
      ∃ cpus, cpusOf (piece pre item post) = .ok cpus := by
  rw [contents, cpulistContents_eq, Log.failure_all]
  constructor
  · intro h pre item post hitems
    exact failure_pieceContents.1 (h _ (mem_cutPieces.2 ⟨pre, item, post, hitems, rfl⟩))
  · intro h cut hcut
    obtain ⟨pre, item, post, hitems, rfl⟩ := mem_cutPieces.1 hcut
    exact failure_pieceContents.2 (h pre item post hitems)

theorem mem_contents {nodeId nodeId' : NodeId} {hpthreadId : HpthreadId}
    (h : (l.contents nodeId).failure = none) :
    Entry.cpu nodeId' hpthreadId ∈ (l.contents nodeId).entries ↔ nodeId' = nodeId ∧
      ∃ pre item post cpus, l.item :: l.items = pre ++ item :: post ∧
        cpusOf (piece pre item post) = .ok cpus ∧ hpthreadId ∈ cpus := by
  rw [contents, cpulistContents_eq] at h ⊢
  rw [Log.entries_all h, List.mem_flatMap]
  constructor
  · intro h
    obtain ⟨cut, hcut, hmem⟩ := h
    obtain ⟨pre, item, post, hitems, rfl⟩ := mem_cutPieces.1 hcut
    obtain ⟨rfl, cpus, hcpus, hin⟩ := mem_pieceContents.1 hmem
    exact ⟨rfl, pre, item, post, cpus, hitems, hcpus, hin⟩
  · intro h
    obtain ⟨rfl, pre, item, post, cpus, hitems, hcpus, hin⟩ := h
    exact ⟨_, mem_cutPieces.2 ⟨pre, item, post, hitems, rfl⟩,
      mem_pieceContents.2 ⟨rfl, cpus, hcpus, hin⟩⟩

/-- No `int` of the scan overflows: `beg_idx` and `cnt` go up to `cpulist.size() + 1`, and one is
added to the end of each range. -/
structure FitsInt : Prop where
  size : l.text.length + 1 ≤ maxInt
  rangeEnd : ∀ cut ∈ cutPieces l.text l.text 0 0, ∀ e, rangeEnd cut = some e → e + 1 ≤ maxInt

/-- The scan of the list, for a node, is defined, throws nothing and inserts exactly what is
listed. -/
def Scans (nodeId : NodeId) : Prop := l.FitsInt ∧ ∀ s : NodeCpu, ∃ s',
  readCpulist nodeId l.text l.text 0 0 s = .ok s' ∧
    { s' with nodeHpthread := s.nodeHpthread } = s ∧
    ∀ nodeId' hpthreadId, hpthreadId ∈ valuesOf s'.nodeHpthread nodeId' ↔
      hpthreadId ∈ valuesOf s.nodeHpthread nodeId' ∨
        nodeId' = nodeId ∧ ∃ n : Nat, hpthreadId = ⟨n⟩ ∧ l.Listed n

theorem inserts_iff (nodeId : NodeId) : (∀ s : NodeCpu, ∃ s',
    readCpulist nodeId l.text l.text 0 0 s = .ok s' ∧
      { s' with nodeHpthread := s.nodeHpthread } = s ∧
      ∀ nodeId' hpthreadId, hpthreadId ∈ valuesOf s'.nodeHpthread nodeId' ↔
        hpthreadId ∈ valuesOf s.nodeHpthread nodeId' ∨
          nodeId' = nodeId ∧ ∃ n : Nat, hpthreadId = ⟨n⟩ ∧ l.Listed n) ↔ l.Scanned := by
  have hscan (s : NodeCpu) : readCpulist nodeId l.text l.text 0 0 s =
      (l.contents nodeId).replay insertEntry s := readCpulist_writes nodeId l.text l.text 0 0 s
  constructor
  · intro h
    obtain ⟨s', hread, -, hvalues⟩ := h {}
    rw [hscan, Log.replay_eq_ok] at hread
    obtain ⟨hfailure, rfl⟩ := hread
    refine ⟨l.failure_contents.1 hfailure, fun id => ?_⟩
    have hinserted := hvalues nodeId ⟨id⟩
    rw [nodeHpthread_foldl, mem_valuesOf_foldl, l.mem_contents hfailure] at hinserted
    simpa [mem_valuesOf_empty] using hinserted
  · rintro ⟨hconvert, hlisted⟩ s
    have hfailure : (l.contents nodeId).failure = none := l.failure_contents.2 hconvert
    refine ⟨_, (hscan s).trans ((Log.replay_eq_ok _).2 ⟨hfailure, rfl⟩),
      foldl_insertEntry_frame ?_ s, fun nodeId' hpthreadId => ?_⟩
    · intro entry hentry
      exact ⟨nodeId, mem_cpulistContents hentry⟩
    · rw [nodeHpthread_foldl, mem_valuesOf_foldl, l.mem_contents hfailure]
      obtain ⟨id⟩ := hpthreadId
      rw [hlisted id]
      simp

/-- Among the lists that are scanned, the ends of the ranges are below the largest `int` when those
of the list are: a number that is taken for the start of a range has no larger end. -/
theorem rangeEnd_lt (h : ∀ a b, .range a b ∈ l.item :: l.items → b < maxInt) {cut : List Char}
    (hcut : cut ∈ cutPieces l.text l.text 0 0) {e : Int} (he : NodeCpu.rangeEnd cut = some e) :
    e + 1 ≤ maxInt := by
  obtain ⟨pre, item, post, hitems, rfl⟩ := mem_cutPieces.1 hcut
  cases item with
  | range a b =>
    obtain ⟨-, rfl⟩ := rangeEnd_range.1 he
    have hlt := h a b (by rw [hitems]; simp)
    omega
  | one x =>
    rcases near_or_far pre post with hnear | ⟨ones, a, b, post', k, rfl, hk⟩
    · rw [rangeEnd_near hnear] at he
      cases he
    · obtain ⟨-, -, rfl⟩ := (rangeEnd_far hk).1 he
      have hlt := h a b (by rw [hitems]; simp)
      have hle := cut_le b k
      omega

/-- **The scan of a list is defined, throws nothing and inserts exactly what is listed, exactly when
its indices and numbers fit in an `int`, the ends of ranges with one added, and it is harmless that
numbers are taken for starts of ranges.** -/
theorem scans_iff (nodeId : NodeId) :
    l.Scans nodeId ↔ l.text.length < maxInt ∧ (∀ i ∈ l.item :: l.items, i.FitsInt) ∧
      l.Harmless := by
  rw [Scans, l.inserts_iff, scanned_iff]
  constructor
  · intro h
    obtain ⟨⟨hsize, hends⟩, hlast, hharmless⟩ := h
    refine ⟨hsize, fun i hi => ?_, hharmless⟩
    cases i with
    | one x => exact hlast _ hi
    | range a b =>
      obtain ⟨pre, post, hitems⟩ := List.append_of_mem hi
      have hend := hends _ (mem_cutPieces.2 ⟨pre, .range a b, post, hitems, rfl⟩) b
        (rangeEnd_range.2 ⟨hlast _ hi, rfl⟩)
      exact Int.ofNat_lt.1 (Int.add_one_le_iff.1 hend)
  · intro h
    obtain ⟨hsize, hfits, hharmless⟩ := h
    have hranges (a b : Nat) (hi : CpuItem.range a b ∈ l.item :: l.items) : b < maxInt :=
      hfits _ hi
    exact ⟨⟨hsize, fun cut hcut e he => l.rangeEnd_lt hranges hcut he⟩,
      fun i hi => (hfits i hi).last_le, hharmless⟩

/-- Before the range of `0,1,2,4-6`, the characters that are cut out behind `2` contain its `-`. -/
def closeRange : Cpulist where
  item := .one 0
  items := [.one 1, .one 2, .range 4 6]
  first_le_last := by decide
  ascending := by decide

/-- The scan of `0,1,2,4-6` inserts `3`. -/
theorem not_scans_closeRange : ¬ ∀ (l : Cpulist) (nodeId : NodeId), l.Scans nodeId := by
  intro h
  obtain ⟨s', hread, -, hvalues⟩ := (h closeRange ⟨0⟩).2 {}
  have hthree : (readCpulist ⟨0⟩ closeRange.text closeRange.text 0 0 {}).toOption.any
      (fun t => decide (⟨3⟩ ∈ valuesOf t.nodeHpthread ⟨0⟩)) = true := by decide +kernel
  obtain ⟨t, hok, hmem⟩ := Runs.exists_ok_of_any hthree
  obtain rfl : t = s' := Except.ok.inj (hok.symm.trans hread)
  rcases (hvalues ⟨0⟩ ⟨3⟩).1 (of_decide_eq_true hmem) with hempty | ⟨-, n, hn, hlisted⟩
  · exact mem_valuesOf_empty hempty
  · obtain rfl : n = 3 := by
      have heq : (3 : Int) = n := HpthreadId.mk.inj hn
      omega
    have hnot : ¬ closeRange.Listed 3 := by
      simp [Listed, closeRange, CpuItem.first, CpuItem.last]
    exact hnot hlisted

end Cpulist

end LibVsf
