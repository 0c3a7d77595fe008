import LibVsf.VmNodeInfoProof

/-!
# The attributes of a virtual node

The word after `-numa` is `node`, and a name and a text for each attribute that is given, in any
order. A text may have commas in it, so `extract_attr` goes on to the next `=` and back to a comma.

Where an attribute is absent `find` gives the greatest `size_t`, and the start that is computed from
it is the length of the attribute's name. That is behind `node` for all names but `mem`, whose text
is then the `e` of `node`.

* `extractAttr_given`, `extractAttr_absent`: what is extracted.
* `reads_iff`: all attributes of all virtual nodes are read exactly when each virtual node has
  `mem`.
-/

namespace LibVsf

/-- An attribute that is read. -/
inductive VnodeAttr where
  | nodeid
  | cpus
  | mem
  | membind
deriving DecidableEq

namespace VnodeAttr

def name : VnodeAttr → List Char
  | nodeid => "nodeid".toList
  | cpus => "cpus".toList
  | mem => "mem".toList
  | membind => "membind".toList

theorem name_ne (a : VnodeAttr) : a.name ≠ [] := by cases a <;> decide

theorem equals_not_mem_name (a : VnodeAttr) : '=' ∉ a.name := by cases a <;> decide

theorem comma_not_mem_name (a : VnodeAttr) : ',' ∉ a.name := by cases a <;> decide

/-- No name ends with another. -/
theorem name_suffix_iff (a b : VnodeAttr) : a.name <:+ b.name ↔ a = b := by
  cases a <;> cases b <;> decide

/-- Behind a comma, a text ends with one name only. -/
theorem name_suffix_append_iff (a b : VnodeAttr) (before : List Char) :
    a.name <:+ before ++ ',' :: b.name ↔ a = b := by
  constructor
  · intro h
    have hname : ',' :: b.name <:+ before ++ ',' :: b.name := List.suffix_append _ _
    rcases List.suffix_or_suffix_of_suffix h hname with h | h
    · rcases List.suffix_cons_iff.1 h with heq | h
      · exact absurd (heq ▸ List.mem_cons_self) a.comma_not_mem_name
      · exact (name_suffix_iff a b).1 h
    · exact absurd (h.subset List.mem_cons_self) a.comma_not_mem_name
  · rintro rfl
    exact (List.suffix_cons _ _).trans (List.suffix_append _ _)

end VnodeAttr

/-! ## `find` -/

namespace VmNodeInfo

theorem takeWhile_equals {seg : List Char} (h : '=' ∉ seg) (rest : List Char) :
    (seg ++ '=' :: rest).takeWhile (fun c => c ≠ '=') = seg := by
  have hall : ∀ c ∈ seg, decide (c ≠ '=') = true :=
    fun c hc => decide_eq_true fun heq => h (heq ▸ hc)
  rw [List.takeWhile_append_of_pos hall, List.takeWhile_cons_of_neg (by simp), List.append_nil]

theorem append_equals_prefix_iff {key seg : List Char} (hkey : '=' ∉ key) (hseg : '=' ∉ seg)
    (rest : List Char) : key ++ ['='] <+: seg ++ '=' :: rest ↔ key = seg := by
  constructor
  · intro h
    obtain ⟨t, ht⟩ := h
    rw [List.append_assoc, List.singleton_append] at ht
    rw [← takeWhile_equals hkey t, ht, takeWhile_equals hseg rest]
  · rintro rfl
    exact ⟨rest, by simp⟩

/-- `key=` is found where a part up to `=` ends with the key. -/
theorem find_part {key seg : List Char} (hne : key ≠ []) (hkey : '=' ∉ key) (hseg : '=' ∉ seg)
    (rest : List Char) (pos : Nat) : find (key ++ ['=']) (seg ++ '=' :: rest) pos =
      if key <:+ seg then some (pos + seg.length - key.length)
      else find (key ++ ['=']) rest (pos + seg.length + 1) := by
  induction seg generalizing pos with
  | nil =>
    have hstarts : ¬ (key ++ ['=']).isPrefixOf ('=' :: rest) = true := by
      rw [List.isPrefixOf_iff_prefix]
      intro h
      exact hne ((append_equals_prefix_iff hkey hseg rest).1 h)
    rw [List.nil_append, find, if_neg hstarts, if_neg fun h => hne (List.suffix_nil.1 h)]
    rfl
  | cons c seg ih =>
    have hstarts : (key ++ ['=']).isPrefixOf (c :: (seg ++ '=' :: rest)) = true ↔
        key = c :: seg := by
      rw [List.isPrefixOf_iff_prefix]
      exact append_equals_prefix_iff hkey hseg rest
    rw [List.cons_append, find]
    by_cases hhere : key = c :: seg
    · rw [if_pos (hstarts.2 hhere), if_pos (hhere ▸ List.suffix_refl _), hhere]
      congr 1
      omega
    · have hlater : key <:+ c :: seg ↔ key <:+ seg := by
        rw [List.suffix_cons_iff, or_iff_right hhere]
      rw [if_neg fun h => hhere (hstarts.1 h), ih fun hmem => hseg (List.mem_cons_of_mem c hmem)]
      simp only [hlater, List.length_cons]
      have hpos : pos + 1 + seg.length = pos + (seg.length + 1) := by omega
      rw [hpos]

theorem find_no_equals {s : List Char} (h : '=' ∉ s) (key : List Char) (pos : Nat) :
    find (key ++ ['=']) s pos = none := by
  induction s generalizing pos with
  | nil => simp [find]
  | cons c s ih =>
    have hstarts : ¬ (key ++ ['=']).isPrefixOf (c :: s) = true := by
      rw [List.isPrefixOf_iff_prefix]
      intro hpre
      exact h (hpre.subset (List.mem_append_right key List.mem_cons_self))
    rw [find, if_neg hstarts]
    exact ih (fun hmem => h (List.mem_cons_of_mem c hmem)) (pos + 1)

/-! ## The end of an attribute -/

/-- The loop goes back to a comma, or to the start. -/
theorem backToComma_eq {s : List Char} {start n m : Nat} (hstop : n = 0 ∨ s[start + n]? = some ',')
    (hno : ∀ j, 0 < j → j ≤ m → s[start + n + j]? ≠ some ',') :
    backToComma s start (start + n + m) = start + n := by
  induction m with
  | zero =>
    cases hpos : start + n with
    | zero => rfl
    | succ k =>
      have hhere : ¬ (start < k + 1 ∧ s[k + 1]? ≠ some ',') := by
        rw [← hpos]
        intro h
        obtain ⟨hlt, hne⟩ := h
        rcases hstop with rfl | hcomma
        · omega
        · exact hne hcomma
      rw [Nat.add_zero, backToComma, if_neg hhere]
  | succ m ih =>
    have hgo : start < start + n + m + 1 ∧ s[start + n + m + 1]? ≠ some ',' :=
      ⟨by omega, hno (m + 1) (by omega) (Nat.le_refl _)⟩
    rw [← Nat.add_assoc, backToComma, if_pos hgo]
    exact ih fun j hpos hle => hno j hpos (by omega)

/-- What `extract_attr` returns for a start. -/
def cutFrom (s : List Char) (start : Nat) : List Char :=
  let stop := start + ((s.drop start).takeWhile fun c => c ≠ '=').length
  let stop := if stop ≠ s.length then backToComma s start stop else stop
  (s.drop start).take (stop - start)

theorem extractAttr_eq (s name : List Char) : extractAttr s name =
    cutFrom s (match find (name ++ ['=']) s 0 with
      | some pos => pos + (name ++ ['=']).length
      | none => (name ++ ['=']).length - 1) := rfl

/-- Without a further `=`, the text goes to the end. -/
theorem cutFrom_last (left : List Char) {v : List Char} (hv : '=' ∉ v) :
    cutFrom (left ++ v) left.length = v := by
  have hall : v.takeWhile (fun c => c ≠ '=') = v :=
    List.takeWhile_eq_self_iff.2 fun c hc => decide_eq_true fun heq => hv (heq ▸ hc)
  have hstop : ¬ (left.length + v.length ≠ (left ++ v).length) :=
    not_not.2 List.length_append.symm
  simp only [cutFrom, List.drop_left]
  rw [hall, if_neg hstop, Nat.add_sub_cancel_left, List.take_length]

/-- Before a further `=`, the text goes to the last comma. -/
theorem cutFrom_part (left : List Char) {v tail : List Char} (rest : List Char) (hv : '=' ∉ v)
    (htail : '=' ∉ tail) (hstop : v = [] ∨ tail.head? = some ',') (hcomma : ',' ∉ tail.tail) :
    cutFrom (left ++ (v ++ (tail ++ '=' :: rest))) left.length = v := by
  have hindex (j : Nat) : (left ++ (v ++ (tail ++ '=' :: rest)))[left.length + v.length + j]? =
      (tail ++ '=' :: rest)[j]? := by
    rw [← List.append_assoc, List.getElem?_append_right (by simp)]
    congr 1
    simp
  have hparts : '=' ∉ v ++ tail := by
    rw [List.mem_append, not_or]
    exact ⟨hv, htail⟩
  have hback : backToComma (left ++ (v ++ (tail ++ '=' :: rest))) left.length
      (left.length + v.length + tail.length) = left.length + v.length := by
    refine backToComma_eq ?_ fun j hpos hle => ?_
    · rw [← Nat.add_zero (left.length + v.length), hindex 0]
      rcases hstop with hnil | hhead
      · exact .inl (List.length_eq_zero_iff.2 hnil)
      · right
        rw [← List.head?_eq_getElem?, List.head?_append, hhead]
        rfl
    · rw [hindex j]
      cases tail with
      | nil =>
        rw [List.length_nil] at hle
        omega
      | cons c tail =>
        obtain ⟨j, rfl⟩ := Nat.exists_eq_add_of_le' hpos
        rw [List.cons_append, List.getElem?_cons_succ]
        intro heq
        by_cases hlt : j < tail.length
        · rw [List.getElem?_append_left hlt] at heq
          exact hcomma (List.mem_of_getElem? heq)
        · have hend : j = tail.length := by
            rw [List.length_cons] at hle
            omega
          rw [hend, List.getElem?_append_right (Nat.le_refl _), Nat.sub_self] at heq
          cases heq
  have hlength : left.length + (v ++ tail).length ≠
      (left ++ (v ++ (tail ++ '=' :: rest))).length := by
    simp only [List.length_append, List.length_cons]
    omega
  simp only [cutFrom, List.drop_left]
  rw [← List.append_assoc v, takeWhile_equals hparts, List.append_assoc v, if_pos hlength,
    List.length_append, ← Nat.add_assoc, hback, Nat.add_sub_cancel_left, List.take_left]

end VmNodeInfo

/-! ## Descriptions -/

/-- The attributes that are given for a virtual node, in their order. -/
structure VnodeDesc where
  attrs : List (VnodeAttr × List Char)
  distinct : (attrs.map Prod.fst).Nodup
  text_ne : ∀ p ∈ attrs, p.2 ≠ []
  equals_not_mem : ∀ p ∈ attrs, '=' ∉ p.2
  not_blank : ∀ p ∈ attrs, ∀ c ∈ p.2, Text.isSpace c = false

/-- Attributes behind a text. -/
def attrsText (before : List Char) : List (VnodeAttr × List Char) → List Char
  | [] => before
  | (a, v) :: attrs => before ++ ',' :: a.name ++ '=' :: attrsText v attrs

namespace VnodeDesc

variable (d : VnodeDesc)

def text : List Char := attrsText "node".toList d.attrs

/-- The text of an attribute, if it is given. -/
def given (a : VnodeAttr) : Option (List Char) :=
  (d.attrs.find? fun p => p.1 = a).map Prod.snd

theorem given_eq_none_iff {a : VnodeAttr} : d.given a = none ↔ a ∉ d.attrs.map Prod.fst := by
  rw [given, Option.map_eq_none_iff, List.find?_eq_none, List.mem_map]
  exact ⟨fun h ⟨p, hp, ha⟩ => h p hp (decide_eq_true ha),
    fun h p hp ha => h ⟨p, hp, of_decide_eq_true ha⟩⟩

theorem mem_of_given {a : VnodeAttr} {v : List Char} (h : d.given a = some v) :
    (a, v) ∈ d.attrs := by
  obtain ⟨⟨b, w⟩, hfind, rfl⟩ := Option.map_eq_some_iff.1 h
  obtain rfl : b = a := by simpa using List.find?_some hfind
  exact List.mem_of_find?_eq_some hfind

end VnodeDesc

namespace VmNodeInfo

theorem equals_not_mem_part {before : List Char} (h : '=' ∉ before) (a : VnodeAttr) :
    '=' ∉ before ++ ',' :: a.name := by
  simp [h, a.equals_not_mem_name]

/-- The search in front of and behind the first attribute. -/
theorem find_attrsText_cons (a b : VnodeAttr) {before : List Char} (hbefore : '=' ∉ before)
    (v : List Char) (attrs : List (VnodeAttr × List Char)) (pos : Nat) :
    find (a.name ++ ['=']) (attrsText before ((b, v) :: attrs)) pos =
      if a = b then some (pos + (before.length + 1))
      else find (a.name ++ ['=']) (attrsText v attrs)
        (pos + (before ++ ',' :: b.name).length + 1) := by
  rw [attrsText, find_part a.name_ne a.equals_not_mem_name (equals_not_mem_part hbefore b)]
  simp only [a.name_suffix_append_iff b before]
  by_cases hab : a = b
  · subst hab
    rw [if_pos rfl, if_pos rfl, List.length_append, List.length_cons]
    congr 1
    omega
  · rw [if_neg hab, if_neg hab]

/-- An attribute that is given is found behind the others. -/
theorem find_attrsText_given (a : VnodeAttr) {before v : List Char}
    {as bs : List (VnodeAttr × List Char)} (hbefore : '=' ∉ before) (has : ∀ p ∈ as, '=' ∉ p.2)
    (ha : a ∉ as.map Prod.fst) (pos : Nat) :
    ∃ left, attrsText before (as ++ (a, v) :: bs) =
        left ++ ((a.name ++ ['=']) ++ attrsText v bs) ∧
      find (a.name ++ ['=']) (attrsText before (as ++ (a, v) :: bs)) pos =
        some (pos + left.length) := by
  induction as generalizing before pos with
  | nil =>
    refine ⟨before ++ [','], by simp [attrsText], ?_⟩
    rw [List.nil_append, find_attrsText_cons a a hbefore, if_pos rfl, List.length_append]
    rfl
  | cons p as ih =>
    obtain ⟨b, w⟩ := p
    obtain ⟨hw, has⟩ := List.forall_mem_cons.1 has
    obtain ⟨hab, ha⟩ := List.ne_and_not_mem_of_not_mem_cons ha
    obtain ⟨left, htext, hfind⟩ := ih hw has ha (pos + (before ++ ',' :: b.name).length + 1)
    refine ⟨before ++ ',' :: b.name ++ '=' :: left, ?_, ?_⟩
    · rw [List.cons_append, attrsText, htext]
      simp
    · rw [List.cons_append, find_attrsText_cons a b hbefore, if_neg hab, hfind]
      simp only [List.length_append, List.length_cons]
      congr 1
      omega

/-- An attribute that is absent is not found. -/
theorem find_attrsText_absent (a : VnodeAttr) {before : List Char}
    {attrs : List (VnodeAttr × List Char)} (hbefore : '=' ∉ before)
    (hattrs : ∀ p ∈ attrs, '=' ∉ p.2) (ha : a ∉ attrs.map Prod.fst) (pos : Nat) :
    find (a.name ++ ['=']) (attrsText before attrs) pos = none := by
  induction attrs generalizing before pos with
  | nil => exact find_no_equals hbefore a.name pos
  | cons p attrs ih =>
    obtain ⟨b, w⟩ := p
    obtain ⟨hw, hattrs⟩ := List.forall_mem_cons.1 hattrs
    obtain ⟨hab, ha⟩ := List.ne_and_not_mem_of_not_mem_cons ha
    rw [find_attrsText_cons a b hbefore, if_neg hab]
    exact ih hw hattrs ha _

end VmNodeInfo

namespace VnodeDesc

open VmNodeInfo

variable (d : VnodeDesc)

theorem equals_not_mem_node : '=' ∉ "node".toList := by decide

/-- **A given attribute is extracted.** -/
theorem extractAttr_given {a : VnodeAttr} {v : List Char} (h : (a, v) ∈ d.attrs) :
    extractAttr d.text a.name = v := by
  obtain ⟨as, bs, hattrs⟩ := List.append_of_mem h
  have hequals := d.equals_not_mem
  have hdistinct := d.distinct
  rw [hattrs] at hequals hdistinct
  have has : ∀ p ∈ as, '=' ∉ p.2 := fun p hp => hequals p (List.mem_append_left _ hp)
  have hv : '=' ∉ v := hequals (a, v) (by simp)
  have ha : a ∉ as.map Prod.fst := by
    rw [List.map_append, List.nodup_append] at hdistinct
    exact fun hmem => hdistinct.2.2 a hmem a (by simp) rfl
  obtain ⟨left, htext, hfind⟩ := find_attrsText_given a equals_not_mem_node has ha 0
  have hleft : d.text = (left ++ (a.name ++ ['='])) ++ attrsText v bs := by
    rw [text, hattrs, htext, ← List.append_assoc]
  have hstart : find (a.name ++ ['=']) d.text 0 = some left.length := by
    rw [text, hattrs, hfind, Nat.zero_add]
  rw [extractAttr_eq, hstart]
  simp only
  rw [← List.length_append, hleft]
  cases bs with
  | nil => exact cutFrom_last _ hv
  | cons p bs =>
    obtain ⟨b, w⟩ := p
    have hcut := cutFrom_part (left ++ (a.name ++ ['='])) (attrsText w bs) hv
      (equals_not_mem_part List.not_mem_nil b) (.inr rfl) b.comma_not_mem_name
    rw [← List.append_assoc v] at hcut
    exact hcut

/-- What is before the start for an absent attribute, what is extracted, and what is left up to the
first `=`. -/
theorem node_parts (a b : VnodeAttr) :
    let part := "node".toList ++ ',' :: b.name
    let v := if a = .mem then ['e'] else []
    let tail := part.drop (a.name.length + v.length)
    part = part.take a.name.length ++ (v ++ tail) ∧
      (part.take a.name.length).length = a.name.length ∧ '=' ∉ v ∧ '=' ∉ tail ∧
      (v = [] ∨ tail.head? = some ',') ∧ ',' ∉ tail.tail := by
  cases a <;> cases b <;> decide

/-- **What is extracted for an absent attribute**: the `e` of `node` for `mem`, otherwise
nothing. -/
theorem extractAttr_absent {a : VnodeAttr} (h : a ∉ d.attrs.map Prod.fst) :
    extractAttr d.text a.name = if a = .mem then ['e'] else [] := by
  have hnone : find (a.name ++ ['=']) d.text 0 = none :=
    find_attrsText_absent a equals_not_mem_node d.equals_not_mem h 0
  have hstart : (a.name ++ ['=']).length - 1 = a.name.length := by simp
  rw [extractAttr_eq, hnone]
  simp only
  rw [hstart, text]
  cases d.attrs with
  | nil => cases a <;> decide
  | cons p attrs =>
    obtain ⟨b, w⟩ := p
    obtain ⟨hpart, hlength, hv, htail, hstop, hcomma⟩ := node_parts a b
    have hcut := cutFrom_part (("node".toList ++ ',' :: b.name).take a.name.length)
      (attrsText w attrs) hv htail hstop hcomma
    rw [← List.append_assoc _ _ ('=' :: attrsText w attrs),
      ← List.append_assoc _ _ ('=' :: attrsText w attrs), ← hpart, hlength] at hcut
    exact hcut

/-- **All but an absent `mem`** are extracted as they are given. -/
theorem extractAttr_eq_iff (a : VnodeAttr) :
    extractAttr d.text a.name = (d.given a).getD [] ↔ (a = .mem → d.given .mem ≠ none) := by
  cases hgiven : d.given a with
  | none =>
    rw [d.extractAttr_absent (d.given_eq_none_iff.1 hgiven), Option.getD_none]
    by_cases ha : a = .mem
    · rw [if_pos ha]
      exact iff_of_false (List.cons_ne_nil _ _) fun h => h ha (ha ▸ hgiven)
    · rw [if_neg ha]
      exact iff_of_true rfl fun h => absurd h ha
  | some v =>
    refine iff_of_true (d.extractAttr_given (d.mem_of_given hgiven)) ?_
    rintro rfl hnone
    rw [hgiven] at hnone
    cases hnone

/-! ## Virtual nodes -/

/-- A number that is given, or what the memory holds. -/
def numberOr (a : VnodeAttr) (held : Int) : Int := ((d.given a).map Text.atoi).getD held

/-- The virtual node that is described. -/
def vnode (memory : Memory) (pos : Nat) : VmVnodeStaticInfo where
  vnodeId := d.numberOr .nodeid (memory.vnodeId pos)
  cpus := ((d.given .cpus).map (parseCpuString memory)).getD []
  memSizeMb := d.numberOr .mem (memory.memSizeMb pos)
  staticBind := d.numberOr .membind (memory.staticBind pos)

/-- Every attribute is extracted as it is given, and nothing for one that is not. -/
def Extracted : Prop := ∀ a : VnodeAttr, extractAttr d.text a.name = (d.given a).getD []

theorem extracted_iff : d.Extracted ↔ d.given .mem ≠ none := by
  simp only [Extracted, extractAttr_eq_iff]
  exact ⟨fun h => h .mem rfl, fun h _ _ => h⟩

theorem given_ne {a : VnodeAttr} {v : List Char} (h : d.given a = some v) : v ≠ [] :=
  d.text_ne _ (d.mem_of_given h)

theorem attrOr_eq (h : d.Extracted) (a : VnodeAttr) (held : Int) :
    attrOr d.text a.name held = d.numberOr a held := by
  rw [attrOr, h a, numberOr]
  cases hgiven : d.given a with
  | none => rfl
  | some v => exact if_pos (d.given_ne hgiven)

theorem vnodeOf_eq (h : d.Extracted) (memory : Memory) (pos : Nat) :
    vnodeOf memory pos d.text = d.vnode memory pos := by
  have hcpus : (if extractAttr d.text VnodeAttr.cpus.name ≠ [] then
      parseCpuString memory (extractAttr d.text VnodeAttr.cpus.name) else []) =
        ((d.given .cpus).map (parseCpuString memory)).getD [] := by
    rw [h .cpus]
    cases hgiven : d.given .cpus with
    | none => rfl
    | some v => exact if_pos (d.given_ne hgiven)
  have hid := d.attrOr_eq h .nodeid (memory.vnodeId pos)
  have hmem := d.attrOr_eq h .mem (memory.memSizeMb pos)
  have hbind := d.attrOr_eq h .membind (memory.staticBind pos)
  rw [vnode, ← hid, ← hmem, ← hbind, ← hcpus]
  rfl

end VnodeDesc

namespace VnodeAttr

theorem name_not_blank (a : VnodeAttr) : ∀ c ∈ a.name, Text.isSpace c = false := by
  refine Text.not_blank_of_all ?_
  cases a <;> decide

end VnodeAttr

namespace VnodeDesc

variable (d : VnodeDesc)

theorem attrsText_not_blank {before : List Char} {attrs : List (VnodeAttr × List Char)}
    (hbefore : ∀ c ∈ before, Text.isSpace c = false)
    (hattrs : ∀ p ∈ attrs, ∀ c ∈ p.2, Text.isSpace c = false) :
    ∀ c ∈ attrsText before attrs, Text.isSpace c = false := by
  induction attrs generalizing before with
  | nil => exact hbefore
  | cons p attrs ih =>
    obtain ⟨a, v⟩ := p
    obtain ⟨hv, hattrs⟩ := List.forall_mem_cons.1 hattrs
    intro c hc
    simp only [attrsText, List.mem_append, List.mem_cons] at hc
    rcases hc with (hc | rfl | hc) | rfl | hc
    · exact hbefore c hc
    · rfl
    · exact a.name_not_blank c hc
    · rfl
    · exact ih hv hattrs c hc

/-- A description is one word. -/
theorem words_text : Text.words d.text = [d.text] := by
  have hblank : ∀ c ∈ d.text, Text.isSpace c = false :=
    attrsText_not_blank (Text.not_blank_of_all (by decide)) d.not_blank
  refine Text.pieces_single ?_ hblank
  rw [text]
  cases d.attrs with
  | nil => decide
  | cons p attrs => simp [attrsText]

end VnodeDesc

/-- A command line with descriptions of virtual nodes, each after other words, and with others at
the end. -/
structure VnodeCmdline where
  text : List Char
  descs : List (List (List Char) × VnodeDesc)
  rest : List (List Char)
  words_eq : Text.words text =
    (descs.flatMap fun p => p.1 ++ [VmNodeInfo.numaOption, p.2.text]) ++ rest
  others : ∀ p ∈ descs, VmNodeInfo.numaOption ∉ p.1
  rest_others : VmNodeInfo.numaOption ∉ rest

namespace VmNodeInfo

/-- Words that are no `-numa` are passed over. -/
theorem readVnodes_append (memory : Memory) {tokens : List (List Char)} (h : numaOption ∉ tokens)
    (rest : List (List Char)) (ret : VmVnodeReturnStructure) :
    readVnodes memory (tokens ++ rest) ret = readVnodes memory rest ret := by
  induction tokens with
  | nil => rfl
  | cons token tokens ih =>
    obtain ⟨htoken, htokens⟩ := List.ne_and_not_mem_of_not_mem_cons h
    rw [List.cons_append, readVnodes.eq_def]
    dsimp only
    rw [if_neg (Ne.symm htoken), ih htokens]

/-- Each description gives an entry. -/
theorem readVnodes_descs (memory : Memory) {descs : List (List (List Char) × VnodeDesc)}
    (hothers : ∀ p ∈ descs, numaOption ∉ p.1) (rest : List (List Char))
    (ret : VmVnodeReturnStructure) :
    readVnodes memory ((descs.flatMap fun p => p.1 ++ [numaOption, p.2.text]) ++ rest) ret =
      readVnodes memory rest
        { vnodeSize := ret.vnodeSize + descs.length
          vnodeInfo := ret.vnodeInfo ++
            descs.mapIdx fun i p => vnodeOf memory (ret.vnodeInfo.length + i) p.2.text } := by
  induction descs generalizing ret with
  | nil => simp
  | cons p descs ih =>
    obtain ⟨hp, hothers⟩ := List.forall_mem_cons.1 hothers
    rw [List.flatMap_cons, List.append_assoc, List.append_assoc, readVnodes_append memory hp,
      List.cons_append, List.singleton_append, readVnodes, if_pos rfl, ih hothers]
    congr 1
    simp only [List.length_cons, List.length_append, List.length_nil, List.mapIdx_cons,
      List.append_assoc, List.singleton_append, Nat.add_zero, Nat.cast_add, Nat.cast_one]
    have hsize : ret.vnodeSize + 1 + (descs.length : Int) =
        ret.vnodeSize + ((descs.length : Int) + 1) := by omega
    have hpos (i : Nat) : ret.vnodeInfo.length + (0 + 1) + i =
        ret.vnodeInfo.length + (i + 1) := by omega
    simp only [hsize, hpos]

theorem readVnodes_rest (memory : Memory) {rest : List (List Char)} (h : numaOption ∉ rest)
    (ret : VmVnodeReturnStructure) : readVnodes memory rest ret = ret := by
  have happend := readVnodes_append memory h [] ret
  rw [List.append_nil] at happend
  exact happend

end VmNodeInfo

namespace VnodeCmdline

open VmNodeInfo

variable (c : VnodeCmdline)

/-- Arguments for virtual nodes only, joined by single spaces. -/
def ofDescs (descs : List VnodeDesc) : VnodeCmdline where
  text := [' '].intercalate (descs.flatMap fun d => [numaOption, d.text])
  descs := descs.map fun d => ([], d)
  rest := []
  words_eq := by
    have hwords (d : VnodeDesc) :
        [numaOption, d.text].flatMap Text.words = [numaOption, d.text] := by
      simp [words_numaOption, d.words_text]
    rw [ArgVector.words_intercalate, List.flatMap_assoc, List.flatMap_map, List.append_nil]
    simp only [hwords]
    rfl
  others p hp := by
    obtain ⟨d, -, rfl⟩ := List.mem_map.1 hp
    exact List.not_mem_nil
  rest_others := List.not_mem_nil

theorem getVmVnodeStaticInfoFromCmdline_eq (memory : Memory) :
    getVmVnodeStaticInfoFromCmdline memory c.text =
      { vnodeSize := c.descs.length
        vnodeInfo := c.descs.mapIdx fun i p => vnodeOf memory i p.2.text } := by
  rw [getVmVnodeStaticInfoFromCmdline, c.words_eq, readVnodes_descs memory c.others,
    readVnodes_rest memory c.rest_others]
  simp

/-- One entry for each description, with the attributes that are given; and nothing is extracted for
an attribute that is not. -/
structure Reads (memory : Memory) : Prop where
  extracted : ∀ p ∈ c.descs, p.2.Extracted
  entries : getVmVnodeStaticInfoFromCmdline memory c.text =
    { vnodeSize := c.descs.length, vnodeInfo := c.descs.mapIdx fun i p => p.2.vnode memory i }

/-- **The virtual nodes are read as they are described exactly when each is given a `mem`.** -/
theorem reads_iff (memory : Memory) :
    c.Reads memory ↔ ∀ p ∈ c.descs, p.2.given .mem ≠ none := by
  constructor
  · intro h p hp
    exact p.2.extracted_iff.1 (h.extracted p hp)
  · intro h
    have hextracted : ∀ p ∈ c.descs, p.2.Extracted := fun p hp => p.2.extracted_iff.2 (h p hp)
    refine ⟨hextracted, ?_⟩
    rw [c.getVmVnodeStaticInfoFromCmdline_eq]
    congr 1
    refine List.mapIdx_eq_mapIdx_iff.2 fun i hi => ?_
    exact (c.descs[i]).2.vnodeOf_eq (hextracted _ (List.getElem_mem hi)) memory i

/-- A virtual node without `mem`. -/
def noMem : VnodeDesc where
  attrs := [(.nodeid, "0".toList), (.cpus, "0-1,4".toList)]
  distinct := by decide
  text_ne := by decide
  equals_not_mem := by decide
  not_blank := by
    simp only [List.forall_mem_cons]
    exact ⟨Text.not_blank_of_all (by decide), Text.not_blank_of_all (by decide), by simp⟩

/-- Of `node,nodeid=0,cpus=0-1,4` the memory `e` is extracted. -/
theorem not_reads_noMem : ¬ ∀ (c : VnodeCmdline) (memory : Memory), c.Reads memory := by
  intro h
  have hmem := (h (ofDescs [noMem]) ArgVector.zeroMemory).extracted ([], noMem)
    List.mem_cons_self .mem
  exact absurd hmem (by decide +kernel)

end VnodeCmdline

end LibVsf
