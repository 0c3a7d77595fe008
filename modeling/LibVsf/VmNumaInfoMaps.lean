import LibVsf.VmNumaInfoCounts
import LibVsf.Lib.Runs

/-!
# `NUMAMaps`: the blocks of a text

A line is an address, a policy, and items in any order: words, and keys with a value. Reading one
is a fold of its items over a block, in which the last item is read twice.

**What an item does** (`NumaItem.apply`). Each item sets one member of the block, so reading one
twice is reading it once, and the counts of a line are those of its nodes in any order. A word sets
the type, also a word that is no type.

Main result, `readsBack_iff`: the blocks that are read are those of the lines exactly when all
numbers fit, no node is beyond the array, and a word that is `stack` or `heap` is the last.
-/

namespace LibVsf

namespace NumaMaps

/-! ## Items -/

/-- A text that `>>` reads as a whole. -/
structure IsWord (text : List Char) : Prop where
  ne : text ≠ []
  not_blank : ∀ c ∈ text, Text.isSpace c = false

/-- A key without a meaning to the program. -/
structure OtherKey (key : List Char) : Prop where
  not_file : key ≠ fileKey
  not_number : ∀ k : NumberKey, key ≠ k.text
  not_node : key.head? ≠ some 'N'

/-- An item of a line. -/
inductive NumaItem where
  | word (text : List Char)
  | file (name : List Char)
  | number (key : NumberKey) (n : Text.Digits)
  | node (i : Nat) (pages : Text.Digits)
  | other (key value : List Char)
deriving DecidableEq

namespace NumaItem

def text : NumaItem → List Char
  | word text => text
  | file name => fileKey ++ '=' :: name
  | number key n => key.text ++ '=' :: n.chars
  | node i pages => 'N' :: Nat.toDigits 10 i ++ '=' :: pages.chars
  | other key value => key ++ '=' :: value

/-- How a line writes an item. -/
def Valid : NumaItem → Prop
  | word text => IsWord text ∧ '=' ∉ text
  | file name => ∀ c ∈ name, Text.isSpace c = false
  | number _ _ => True
  | node _ _ => True
  | other key value => OtherKey key ∧ '=' ∉ key ∧ ∀ c ∈ key ++ value, Text.isSpace c = false

/-- The word of an item that is one. -/
def word? : NumaItem → Option (List Char)
  | word text => some text
  | _ => none

/-- The node of an item with a count. -/
def node? : NumaItem → Option Nat
  | node i _ => some i
  | _ => none

/-- The count of an item. -/
def pages : NumaItem → Nat
  | node _ pages => pages.value
  | _ => 0

/-- What reading an item sets. -/
def apply (b : MemBlock) : NumaItem → MemBlock
  | word text => { b with memType := getMemType text }
  | file name => { b with file := name }
  | number key n => key.set b n.value
  | node i pages =>
    { b with numPagesOnNode := fun j => if (j : Nat) = i then pages.value else b.numPagesOnNode j }
  | other _ _ => b

/-- The numbers of an item fit, and its node has a place in the array. -/
def Fits : NumaItem → Prop
  | number _ n => n.value ≤ 2147483647
  | node i pages => i < maxNodeNum ∧ pages.value ≤ 2147483647
  | _ => True

end NumaItem

theorem not_blank_key (k : NumberKey) : ∀ c ∈ k.text, Text.isSpace c = false := by
  refine Text.not_blank_of_all ?_
  cases k <;> decide

theorem not_blank_digits (d : Text.Digits) : ∀ c ∈ d.chars, Text.isSpace c = false :=
  fun c hc => Text.isSpace_of_isDigit (d.chars_digit c hc)

theorem not_blank_keyValue {key value : List Char} (hkey : ∀ c ∈ key, Text.isSpace c = false)
    (hvalue : ∀ c ∈ value, Text.isSpace c = false) : IsWord (key ++ '=' :: value) := by
  refine ⟨by simp, fun c hc => ?_⟩
  rcases List.mem_append.1 hc with hc | hc
  · exact hkey c hc
  · rcases List.mem_cons.1 hc with rfl | hc
    · decide
    · exact hvalue c hc

theorem not_blank_node (i : Nat) : ∀ c ∈ 'N' :: Nat.toDigits 10 i, Text.isSpace c = false := by
  refine List.forall_mem_cons.2 ⟨by decide, fun c hc => ?_⟩
  exact Text.isSpace_of_isDigit (Text.isDigit_toDigits hc)

/-- **An item is a word of its line.** -/
theorem NumaItem.isWord_text {item : NumaItem} (h : item.Valid) : IsWord item.text := by
  cases item with
  | word text => exact h.1
  | file name =>
    exact not_blank_keyValue (Text.not_blank_of_all (by decide)) h
  | number key n => exact not_blank_keyValue (not_blank_key key) (not_blank_digits n)
  | node i pages => exact not_blank_keyValue (not_blank_node i) (not_blank_digits pages)
  | other key value =>
    obtain ⟨-, -, hblank⟩ := h
    exact not_blank_keyValue (fun c hc => hblank c (List.mem_append_left _ hc))
      fun c hc => hblank c (List.mem_append_right _ hc)

/-! ## What reading an item does -/

/-- A text with `=`, by its key and value. -/
theorem setAttributes_keyValue {key : List Char} (hkey : '=' ∉ key) (value : List Char)
    (b : MemBlock) :
    setAttributes b (key ++ '=' :: value) =
      if key = fileKey then .ok { b with file := value }
      else if key = NumberKey.anon.text then setNumber b value .anon
      else if key = NumberKey.dirty.text then setNumber b value .dirty
      else if key = NumberKey.active.text then setNumber b value .active
      else if key = NumberKey.mapped.text then setNumber b value .mapped
      else if key = NumberKey.mapmax.text then setNumber b value .mapmax
      else if key.head? = some 'N' then setNode b key value
      else .ok b := by
  have hidx : (key ++ '=' :: value).idxOf '=' = key.length := by
    rw [List.idxOf_append, if_neg hkey, List.idxOf_cons_self, Nat.zero_add]
  have hdrop : (key ++ '=' :: value).drop (key.length + 1) = value := by
    rw [List.drop_append, List.drop_eq_nil_of_le (Nat.le_succ _)]
    simp
  simp only [setAttributes, hidx, hdrop, List.take_left]

theorem setNumber_digits (b : MemBlock) (n : Text.Digits) (key : NumberKey) (b' : MemBlock) :
    setNumber b n.chars key = .ok b' ↔ n.value ≤ 2147483647 ∧ b' = key.set b n.value := by
  rw [setNumber, n.stoi_chars]
  by_cases hle : n.value ≤ 2147483647
  · simp [hle, eq_comm]
  · simp [hle]

/-- A count of pages of a node. -/
theorem setNode_digits (b : MemBlock) (i : Nat) (pages : Text.Digits) (b' : MemBlock) :
    setNode b ('N' :: Nat.toDigits 10 i) pages.chars = .ok b' ↔
      (i < maxNodeNum ∧ pages.value ≤ 2147483647) ∧ b' = (NumaItem.node i pages).apply b := by
  have hnode : Text.stoi (('N' :: Nat.toDigits 10 i).drop 1) =
      if i ≤ 2147483647 then .ok (i : Int) else .error .outOfRange := by
    have hstoi := (Text.Digits.ofNat i).stoi_chars
    rwa [Text.Digits.value_ofNat] at hstoi
  rw [setNode, hnode]
  by_cases hi : i < maxNodeNum
  · have hrange : 0 ≤ (i : Int) ∧ (i : Int) < maxNodeNum := ⟨by omega, by exact_mod_cast hi⟩
    have hle : i ≤ 2147483647 := by
      have height : maxNodeNum = 8 := rfl
      omega
    simp only [hle, if_true, hrange, dif_pos, and_self]
    rw [pages.stoi_chars]
    by_cases hpages : pages.value ≤ 2147483647
    · have hset : Function.update b.numPagesOnNode ⟨i, hi⟩ (pages.value : Int) =
          fun j : Fin maxNodeNum =>
            if (j : Nat) = i then (pages.value : Int) else b.numPagesOnNode j := by
        funext j
        simp only [Function.update_apply, Fin.ext_iff]
      simp only [hpages, if_true, hi, and_self, true_and, NumaItem.apply, Int.toNat_natCast, hset]
      exact ⟨fun h => (Except.ok.inj h).symm, fun h => congrArg Except.ok h.symm⟩
    · simp [hpages]
  · refine iff_of_false (fun h => ?_) fun h => hi h.1.1
    have hrange : ¬ (0 ≤ (i : Int) ∧ (i : Int) < maxNodeNum) := by omega
    by_cases hle : i ≤ 2147483647
    · simp only [hle, if_true, hrange, dif_neg, not_false_eq_true] at h
      cases h
    · simp only [hle, if_false] at h
      cases h

theorem eq_notMem_key (k : NumberKey) : '=' ∉ k.text := by
  cases k <;> decide

/-- A key without a meaning. -/
theorem readItem_other {key : List Char} (hother : OtherKey key) (hkey : '=' ∉ key)
    (value : List Char) (b : MemBlock) : readItem b (key ++ '=' :: value) = .ok b := by
  have hattribute : '=' ∈ key ++ '=' :: value := by simp
  rw [readItem, if_pos hattribute, setAttributes_keyValue hkey, if_neg hother.not_file,
    if_neg (hother.not_number .anon), if_neg (hother.not_number .dirty),
    if_neg (hother.not_number .active), if_neg (hother.not_number .mapped),
    if_neg (hother.not_number .mapmax), if_neg hother.not_node]

/-- **An item is read** exactly when it fits, and sets what it says. -/
theorem readItem_text {item : NumaItem} (h : item.Valid) (b b' : MemBlock) :
    readItem b item.text = .ok b' ↔ item.Fits ∧ b' = item.apply b := by
  have hattribute (key value : List Char) : '=' ∈ key ++ '=' :: value := by simp
  cases item with
  | word text =>
    rw [readItem, NumaItem.text, if_neg h.2]
    simp [NumaItem.Fits, NumaItem.apply, eq_comm]
  | file name =>
    rw [readItem, NumaItem.text, if_pos (hattribute _ _),
      setAttributes_keyValue (by decide), if_pos rfl]
    simp [NumaItem.Fits, NumaItem.apply, eq_comm]
  | number key n =>
    rw [readItem, NumaItem.text, if_pos (hattribute _ _),
      setAttributes_keyValue (eq_notMem_key key), NumaItem.Fits, NumaItem.apply,
      ← setNumber_digits]
    cases key <;> rfl
  | node i pages =>
    have hkey : '=' ∉ 'N' :: Nat.toDigits 10 i :=
      List.not_mem_cons_of_ne_of_not_mem (by decide) (Text.not_mem_toDigits rfl i)
    have hne (key : List Char) (c : Char) (hhead : key.head? = some c) (hc : c ≠ 'N') :
        'N' :: Nat.toDigits 10 i ≠ key := by
      rintro rfl
      exact hc (Option.some.inj hhead).symm
    rw [readItem, NumaItem.text, if_pos (hattribute _ _), setAttributes_keyValue hkey,
      if_neg (hne _ 'f' rfl (by decide)), if_neg (hne _ 'a' rfl (by decide)),
      if_neg (hne _ 'd' rfl (by decide)), if_neg (hne _ 'a' rfl (by decide)),
      if_neg (hne _ 'm' rfl (by decide)), if_neg (hne _ 'm' rfl (by decide)),
      List.head?_cons, if_pos rfl]
    exact setNode_digits b i pages b'
  | other key value =>
    rw [NumaItem.text, readItem_other h.1 h.2.1]
    simp [NumaItem.Fits, NumaItem.apply, eq_comm]

theorem NumaItem.apply_apply (item : NumaItem) (b : MemBlock) :
    item.apply (item.apply b) = item.apply b := by
  cases item with
  | word text => rfl
  | file name => rfl
  | number key n => cases key <;> rfl
  | node i pages =>
    simp only [apply]
    congr 1
    funext j
    split_ifs <;> rfl
  | other key value => rfl

/-- The items of a line, one after the other. -/
theorem foldlM_readItem {items : List NumaItem} (h : ∀ item ∈ items, item.Valid)
    (b b' : MemBlock) :
    (items.map NumaItem.text).foldlM readItem b = .ok b' ↔
      (∀ item ∈ items, item.Fits) ∧ b' = items.foldl NumaItem.apply b := by
  induction items generalizing b with
  | nil => simp [pure, Except.pure, eq_comm]
  | cons item items ih =>
    obtain ⟨hitem, hitems⟩ := List.forall_mem_cons.1 h
    rw [List.map_cons, List.foldlM_cons, Runs.bind_eq_ok, List.forall_mem_cons, List.foldl_cons]
    constructor
    · intro h
      obtain ⟨b₁, hb₁, hrest⟩ := h
      obtain ⟨hfits, rfl⟩ := (readItem_text hitem b b₁).1 hb₁
      obtain ⟨hall, hb'⟩ := (ih hitems _).1 hrest
      exact ⟨⟨hfits, hall⟩, hb'⟩
    · intro h
      obtain ⟨⟨hfits, hall⟩, hb'⟩ := h
      exact ⟨_, (readItem_text hitem b _).2 ⟨hfits, rfl⟩, (ih hitems _).2 ⟨hall, hb'⟩⟩

/-- **The last item is read twice, and sets the same.** Without items it is the policy. -/
theorem foldlM_loopWords {items : List NumaItem} (h : ∀ item ∈ items, item.Valid)
    {policy : List Char} {b : MemBlock} (hpolicy : readItem b policy = .ok b) :
    (loopWords policy (items.map NumaItem.text)).foldlM readItem b =
      (items.map NumaItem.text).foldlM readItem b := by
  rcases List.eq_nil_or_concat items with rfl | ⟨init, last, rfl⟩
  · show [policy].foldlM readItem b = .ok b
    rw [List.foldlM_cons, hpolicy]
    rfl
  · have hlast : last.Valid := h last (by simp)
    have htwice (b : MemBlock) :
        [last.text, last.text].foldlM readItem b = [last.text].foldlM readItem b := by
      rw [List.foldlM_cons, List.foldlM_cons]
      cases hread : readItem b last.text with
      | error failure => rfl
      | ok b' =>
        obtain ⟨hfits, rfl⟩ := (readItem_text hlast b b').1 hread
        have hagain := (readItem_text hlast (last.apply b) _).2 ⟨hfits, rfl⟩
        rw [last.apply_apply] at hagain
        show [last.text].foldlM readItem _ = _
        rw [List.foldlM_cons, hagain]
    have hsplit : loopWords policy ((init ++ [last]).map NumaItem.text) =
        init.map NumaItem.text ++ [last.text, last.text] := by
      simp [loopWords]
    rw [List.concat_eq_append, hsplit, List.foldlM_append, List.map_append, List.foldlM_append]
    simp only [htwice, List.map_cons, List.map_nil]

/-! ## The policy -/

/-- The policy of a line. -/
inductive Policy where
  | prefer (node : Text.Digits)
  | word (text : List Char)
deriving DecidableEq

namespace Policy

def text : Policy → List Char
  | prefer node => preferColon ++ node.chars
  | word text => text

/-- How a line writes a policy: it is no item. -/
structure OtherWord (text : List Char) : Prop where
  word : IsWord text
  not_prefer : ¬ preferColon <:+: text
  not_stack : text ≠ stackText
  not_heap : text ≠ heapText
  other_key : ∀ key value, text = key ++ '=' :: value → '=' ∉ key → OtherKey key

theorem other_key_of_notMem {text : List Char} (h : '=' ∉ text) (key value : List Char)
    (heq : text = key ++ '=' :: value) (_ : '=' ∉ key) : OtherKey key := by
  subst heq
  exact absurd (by simp) h

def Valid : Policy → Prop
  | prefer _ => True
  | word text => OtherWord text

def numaPolicy : Policy → NumaPolicy
  | prefer _ => .prefer
  | word text => if preferText <:+: text then .prefer else .default

def preferNode : Policy → Int
  | prefer node => node.value
  | word _ => -1

/-- The number of a preferred node fits. -/
def Fits : Policy → Prop
  | prefer node => node.value ≤ 2147483647
  | word _ => True

end Policy

theorem find_eq_none_iff {key : List Char} (hkey : key ≠ []) (s : List Char) (pos : Nat) :
    VmNodeInfo.find key s pos = none ↔ ¬ key <:+: s := by
  induction s generalizing pos with
  | nil => simp [VmNodeInfo.find, hkey]
  | cons c s ih =>
    rw [VmNodeInfo.find, List.infix_cons_iff]
    split_ifs with hstarts
    · simp [List.isPrefixOf_iff_prefix.1 hstarts]
    · rw [List.isPrefixOf_iff_prefix] at hstarts
      simp [hstarts, ih]

theorem find_append {key : List Char} (hkey : key ≠ []) (rest : List Char) (pos : Nat) :
    VmNodeInfo.find key (key ++ rest) pos = some pos := by
  obtain ⟨c, cs, rfl⟩ := List.exists_cons_of_ne_nil hkey
  have hstarts : (c :: cs).isPrefixOf (c :: (cs ++ rest)) = true := by
    rw [List.isPrefixOf_iff_prefix, ← List.cons_append]
    exact List.prefix_append _ _
  rw [List.cons_append, VmNodeInfo.find, if_pos hstarts]

theorem preferText_occurs {text : List Char} (h : preferColon <:+: text) : preferText <:+: text :=
  List.IsInfix.trans ⟨[], [':'], rfl⟩ h

theorem prefer_ne {text : List Char} (h : ¬ preferText <:+: text) (rest : List Char) :
    preferColon ++ rest ≠ text := by
  rintro rfl
  exact h (preferText_occurs (List.prefix_append _ _).isInfix)

namespace Policy

theorem isWord_text {p : Policy} (h : p.Valid) : IsWord p.text := by
  cases p with
  | prefer node =>
    refine ⟨List.append_ne_nil_of_right_ne_nil _ node.chars_ne, fun c hc => ?_⟩
    rcases List.mem_append.1 hc with hc | hc
    · exact @Text.not_blank_of_all preferColon (by decide) c hc
    · exact not_blank_digits node c hc
  | word text => exact h.word

theorem getNumaPolicy_text (p : Policy) : getNumaPolicy p.text = p.numaPolicy := by
  have hfind (text : List Char) :
      VmNodeInfo.find preferText text 0 = none ↔ ¬ preferText <:+: text :=
    find_eq_none_iff (by decide) text 0
  have hdefault : ¬ preferText <:+: "DEFAULT".toList := by decide
  rw [getNumaPolicy]
  cases p with
  | prefer node =>
    have hprefer : preferText <:+: preferColon ++ node.chars :=
      preferText_occurs (List.prefix_append _ _).isInfix
    rw [text, if_neg (prefer_ne hdefault _), if_pos fun hnone => (hfind _).1 hnone hprefer,
      numaPolicy]
  | word text =>
    rw [Policy.text, numaPolicy]
    by_cases hprefer : preferText <:+: text
    · have hne : text ≠ "DEFAULT".toList := by
        rintro rfl
        exact hdefault hprefer
      rw [if_neg hne, if_pos fun hnone => (hfind _).1 hnone hprefer, if_pos hprefer]
    · have hnone := (hfind text).2 hprefer
      simp only [hprefer, if_false, hnone, ne_eq, not_true_eq_false, ite_self]

/-- **The node of a policy**, where it is asked for. -/
theorem readPreferNode_text {p : Policy} (h : p.Valid) (n : Int) :
    readPreferNode p.text = .ok n ↔ p.Fits ∧ n = p.preferNode := by
  rw [readPreferNode, getNumaPolicy_text]
  cases p with
  | prefer node =>
    have hfind := @find_append preferColon (by decide) node.chars 0
    have hdrop : (preferColon ++ node.chars).drop (0 + preferColon.length) = node.chars := by
      rw [Nat.zero_add, List.drop_left]
    rw [numaPolicy, if_pos rfl, text, preferedNode, hfind]
    simp only [hdrop]
    rw [node.stoi_chars, Fits, preferNode]
    by_cases hle : node.value ≤ 2147483647
    · simp [hle, Except.mapError, eq_comm]
    · simp [hle, Except.mapError]
  | word text =>
    have hnone : preferedNode text = .ok (-1) := by
      rw [preferedNode, (find_eq_none_iff (by decide) text 0).2 h.not_prefer]
    rw [Policy.text, hnone]
    simp [Except.mapError, Fits, preferNode, eq_comm]

/-- A policy that is read as an item is none. -/
theorem readItem_text {p : Policy} (h : p.Valid) {b : MemBlock} (hb : b.memType = .wtf) :
    readItem b p.text = .ok b := by
  have hword {text : List Char} (hstack : text ≠ stackText) (hheap : text ≠ heapText)
      (heq : '=' ∉ text) : readItem b text = .ok b := by
    rw [readItem, if_neg heq, getMemType, if_neg hstack, if_neg hheap, ← hb]
  cases p with
  | prefer node =>
    refine hword (prefer_ne (by decide) _) (prefer_ne (by decide) _) fun hmem => ?_
    rcases List.mem_append.1 hmem with hmem | hmem
    · exact absurd hmem (by decide)
    · exact absurd (node.chars_digit _ hmem) (by decide)
  | word text =>
    by_cases heq : '=' ∈ text
    · obtain ⟨key, value, rfl, hkey⟩ := List.eq_append_cons_of_mem heq
      exact readItem_other (h.other_key key value rfl hkey) hkey value b
    · exact hword h.not_stack h.not_heap heq

end Policy

/-! ## Lines -/

end NumaMaps

/-- A line of `numa_maps`. -/
structure NumaLine where
  /-- Hexadecimal digits. -/
  address : List Char
  policy : NumaMaps.Policy
  items : List NumaMaps.NumaItem
  address_ne : address ≠ []
  address_hex : ∀ c ∈ address, Text.isHexDigit c = true
  policy_valid : policy.Valid
  items_valid : ∀ item ∈ items, item.Valid
  /-- A node has one count. -/
  node_nodup : (items.filterMap NumaMaps.NumaItem.node?).Nodup
  /-- No block is a stack and a heap. -/
  one_type : .word NumaMaps.stackText ∈ items → .word NumaMaps.heapText ∉ items

namespace NumaLine

open NumaMaps

variable (l : NumaLine)

def parts : List (List Char) := l.address :: l.policy.text :: l.items.map NumaItem.text

def text : List Char := [' '].intercalate l.parts

/-- The type that a line names. -/
def type : MemType :=
  if .word stackText ∈ l.items then .stack
  else if .word heapText ∈ l.items then .heap
  else .wtf

/-- The sum of the counts. -/
def pages : Nat := (l.items.map NumaItem.pages).sum

/-- The block before the items are read. -/
def start : MemBlock :=
  { address := Text.hexadecimal l.address
    numaPolicy := l.policy.numaPolicy
    preferNode := l.policy.preferNode }

/-- The block after the items are read. -/
def withItems : MemBlock := l.items.foldl NumaItem.apply l.start

def block : MemBlock :=
  { l.withItems with pagesSum := sumPages l.withItems.numPagesOnNode }

/-- A block is what a line describes. -/
structure Describes (b : MemBlock) : Prop where
  address : b.address = Text.hexadecimal l.address
  policy : b.numaPolicy = l.policy.numaPolicy
  type : b.memType = l.type
  counts : ∀ i n, .node i n ∈ l.items →
    ∃ h : i < maxNodeNum, b.numPagesOnNode ⟨i, h⟩ = n.value
  no_count : ∀ i : Fin maxNodeNum, (∀ n, .node i n ∉ l.items) → b.numPagesOnNode i = -1
  sum : b.pagesSum = l.pages

/-- What the program has room for. -/
structure Fits : Prop where
  address : Text.hexadecimal l.address ≤ 18446744073709551615
  policy : l.policy.Fits
  items : ∀ item ∈ l.items, item.Fits
  /-- `stack` or `heap`, if it is there, is the last word; it may be repeated. -/
  type_last : ∀ word ∈ l.items.filterMap NumaItem.word?, word = stackText ∨ word = heapText →
    (l.items.filterMap NumaItem.word?).getLast? = some word
  sum : l.pages ≤ 2147483647

/-! ## The text of a line -/

theorem isWord_address : IsWord l.address :=
  ⟨l.address_ne, fun c hc => (Text.hexDigit_sign (l.address_hex c hc)).1⟩

theorem isWord_parts : ∀ part ∈ l.parts, IsWord part := by
  rw [parts, List.forall_mem_cons, List.forall_mem_cons]
  refine ⟨l.isWord_address, Policy.isWord_text l.policy_valid, fun part hpart => ?_⟩
  obtain ⟨item, hitem, rfl⟩ := List.mem_map.1 hpart
  exact NumaItem.isWord_text (l.items_valid item hitem)

theorem newline_notMem_text : '\n' ∉ l.text := by
  intro hmem
  rcases Text.mem_intercalate hmem with hblank | ⟨part, hpart, hc⟩
  · exact absurd hblank (by decide)
  · exact absurd ((l.isWord_parts part hpart).not_blank _ hc) (by decide)

theorem text_eq :
    l.text =
      l.address ++ ' ' :: [' '].intercalate (l.policy.text :: l.items.map NumaItem.text) := by
  rw [text, parts, List.intercalate_cons_cons, List.append_assoc]
  rfl

/-- The words after the address. -/
theorem words_rest :
    Text.words (' ' :: [' '].intercalate (l.policy.text :: l.items.map NumaItem.text)) =
      l.policy.text :: l.items.map NumaItem.text := by
  have hblank : Text.isSpace ' ' = true := by decide
  rw [Text.words, Text.pieces_delim hblank]
  refine Text.pieces_joined hblank fun part hpart => ?_
  have hword := l.isWord_parts part (List.mem_cons_of_mem _ hpart)
  exact ⟨hword.ne, hword.not_blank⟩

/-- **A line is read** to its block. -/
theorem lineBlock_text (b : MemBlock) :
    lineBlock l.text = .ok b ↔
      (18446744073709551615 < Text.hexadecimal l.address ∧
          b = { address := 18446744073709551615 }) ∨
        (Text.hexadecimal l.address ≤ 18446744073709551615 ∧ l.policy.Fits ∧
          (∀ item ∈ l.items, item.Fits) ∧ b = l.block) := by
  have hblank : Text.isHexDigit ' ' = false := by decide
  rw [lineBlock, l.text_eq, Text.scanHex_digits l.address_ne l.address_hex hblank (by decide)
    (by decide)]
  by_cases hlarge : 18446744073709551615 < Text.hexadecimal l.address
  · simp [hlarge, eq_comm]
  · simp only [hlarge, if_false, l.words_rest, false_and, false_or, not_lt.1 hlarge, true_and]
    rw [Runs.bind_eq_ok]
    constructor
    · intro h
      obtain ⟨n, hprefer, hrest⟩ := h
      obtain ⟨hpolicy, rfl⟩ := (Policy.readPreferNode_text l.policy_valid n).1 hprefer
      obtain ⟨b', hitems, hb⟩ := (Runs.bind_eq_ok).1 hrest
      rw [Policy.getNumaPolicy_text, foldlM_loopWords l.items_valid
        (Policy.readItem_text l.policy_valid rfl), foldlM_readItem l.items_valid] at hitems
      obtain ⟨hfits, rfl⟩ := hitems
      cases hb
      exact ⟨hpolicy, hfits, rfl⟩
    · intro h
      obtain ⟨hpolicy, hfits, rfl⟩ := h
      refine ⟨_, (Policy.readPreferNode_text l.policy_valid _).2 ⟨hpolicy, rfl⟩, ?_⟩
      refine (Runs.bind_eq_ok).2 ⟨l.withItems, ?_, rfl⟩
      rw [Policy.getNumaPolicy_text, foldlM_loopWords l.items_valid
        (Policy.readItem_text l.policy_valid rfl), foldlM_readItem l.items_valid]
      exact ⟨hfits, rfl⟩

end NumaLine

namespace NumaMaps

/-! ## The block of a line -/

theorem foldl_apply_address (items : List NumaItem) (b : MemBlock) :
    (items.foldl NumaItem.apply b).address = b.address := by
  induction items generalizing b with
  | nil => rfl
  | cons item items ih =>
    rw [List.foldl_cons, ih]
    cases item with
    | number key n => cases key <;> rfl
    | _ => rfl

theorem foldl_apply_numaPolicy (items : List NumaItem) (b : MemBlock) :
    (items.foldl NumaItem.apply b).numaPolicy = b.numaPolicy := by
  induction items generalizing b with
  | nil => rfl
  | cons item items ih =>
    rw [List.foldl_cons, ih]
    cases item with
    | number key n => cases key <;> rfl
    | _ => rfl

/-- The last word is the type. -/
theorem foldl_apply_memType (items : List NumaItem) (b : MemBlock) :
    (items.foldl NumaItem.apply b).memType =
      ((items.filterMap NumaItem.word?).getLast?.map getMemType).getD b.memType := by
  induction items using List.reverseRecOn with
  | nil => rfl
  | append_singleton items item ih =>
    rw [List.foldl_append, List.filterMap_append]
    cases item with
    | word text => simp [NumaItem.apply, NumaItem.word?]
    | number key n => cases key <;> simpa [NumaItem.apply, NumaItem.word?, NumberKey.set] using ih
    | _ => simpa [NumaItem.apply, NumaItem.word?] using ih

theorem numPages_of_no_count {items : List NumaItem} {j : Fin maxNodeNum}
    (h : ∀ n, .node j n ∉ items) (b : MemBlock) :
    (items.foldl NumaItem.apply b).numPagesOnNode j = b.numPagesOnNode j := by
  induction items generalizing b with
  | nil => rfl
  | cons item items ih =>
    rw [List.foldl_cons, ih fun n hmem => h n (List.mem_cons_of_mem _ hmem)]
    cases item with
    | number key n => cases key <;> rfl
    | node i n =>
      have hne : (j : Nat) ≠ i := by
        rintro rfl
        exact h n List.mem_cons_self
      exact if_neg hne
    | _ => rfl

/-- **The count of a node** is that of its item. -/
theorem numPages_of_count {items : List NumaItem} {j : Fin maxNodeNum} {n : Text.Digits}
    (hnodup : (items.filterMap NumaItem.node?).Nodup) (h : .node j n ∈ items) (b : MemBlock) :
    (items.foldl NumaItem.apply b).numPagesOnNode j = n.value := by
  induction items generalizing b with
  | nil => cases h
  | cons item items ih =>
    rw [List.foldl_cons]
    rcases List.mem_cons.1 h with rfl | hmem
    · have hno : ∀ n', .node j n' ∉ items := fun n' hmem =>
        (List.nodup_cons.1 hnodup).1 (List.mem_filterMap.2 ⟨_, hmem, rfl⟩)
      rw [numPages_of_no_count hno]
      exact if_pos rfl
    · refine ih ?_ hmem _
      cases item with
      | node i n' => exact (List.nodup_cons.1 hnodup).2
      | _ => exact hnodup

/-- **The pages of all nodes** are the counts of the items. -/
theorem sum_numPages {items : List NumaItem} (hnodup : (items.filterMap NumaItem.node?).Nodup)
    (hfits : ∀ item ∈ items, item.Fits) {b : MemBlock}
    (hb : ∀ j : Fin maxNodeNum, (j : Nat) ∈ items.filterMap NumaItem.node? →
      b.numPagesOnNode j = -1) :
    ∑ j, max 0 ((items.foldl NumaItem.apply b).numPagesOnNode j) =
      ∑ j, max 0 (b.numPagesOnNode j) + (items.map NumaItem.pages).sum := by
  induction items generalizing b with
  | nil => simp
  | cons item items ih =>
    obtain ⟨hitem, hitems⟩ := List.forall_mem_cons.1 hfits
    rw [List.foldl_cons, List.map_cons, List.sum_cons]
    cases item with
    | node i n =>
      obtain ⟨hnot, hrest⟩ := List.nodup_cons.1 hnodup
      rw [ih hrest hitems]
      · have hadd (j : Fin maxNodeNum) :
            max 0 (((NumaItem.node i n).apply b).numPagesOnNode j) =
              max 0 (b.numPagesOnNode j) + if j = ⟨i, hitem.1⟩ then (n.value : Int) else 0 := by
          by_cases hj : j = ⟨i, hitem.1⟩
          · subst hj
            have hnone : b.numPagesOnNode ⟨i, hitem.1⟩ = -1 := hb _ List.mem_cons_self
            simp [NumaItem.apply, hnone]
          · have hne : (j : Nat) ≠ i := fun heq => hj (Fin.ext heq)
            simp [NumaItem.apply, hne, hj]
        simp only [hadd, Finset.sum_add_distrib, Finset.sum_ite_eq', Finset.mem_univ, if_true]
        rw [NumaItem.pages, Nat.cast_add, add_assoc]
      · intro j hj
        have hne : (j : Nat) ≠ i := by
          rintro rfl
          exact hnot hj
        exact (if_neg hne).trans (hb j (List.mem_cons_of_mem _ hj))
    | number key n =>
      simp only [NumaItem.pages, Nat.zero_add]
      cases key <;> exact ih hnodup hitems hb
    | _ =>
      simp only [NumaItem.pages, Nat.zero_add]
      exact ih hnodup hitems hb

/-- A sum in 32 bits. -/
theorem sumPages_eq (pages : PagesOnNode) :
    sumPages pages = (∑ j, max 0 (pages j)).bmod 4294967296 := by
  have hfold (is : List (Fin maxNodeNum)) (s : Int) :
      (is.foldl (fun sum i => if 0 < pages i then addInt sum (pages i) else sum)
        (s.bmod 4294967296)) = (s + (is.map fun j => max 0 (pages j)).sum).bmod 4294967296 := by
    induction is generalizing s with
    | nil => simp
    | cons i is ih =>
      have hstep : (if 0 < pages i then addInt (s.bmod 4294967296) (pages i)
          else s.bmod 4294967296) = (s + max 0 (pages i)).bmod 4294967296 := by
        split_ifs with hpos
        · rw [addInt, Int.bmod_add_bmod, max_eq_right hpos.le]
        · rw [max_eq_left (not_lt.1 hpos), add_zero]
      rw [List.foldl_cons, hstep, ih, List.map_cons, List.sum_cons, add_assoc]
  have hall := hfold (List.finRange maxNodeNum) 0
  rw [zero_add, ← Fin.sum_univ_def] at hall
  exact hall

theorem getMemType_eq_stack {w : List Char} : getMemType w = .stack ↔ w = stackText := by
  rw [getMemType]
  split_ifs with hstack hheap
  · exact iff_of_true rfl hstack
  · exact iff_of_false (by decide) hstack
  · exact iff_of_false (by decide) hstack

theorem getMemType_eq_heap {w : List Char} : getMemType w = .heap ↔ w = heapText := by
  have hne : stackText ≠ heapText := by decide
  rw [getMemType]
  split_ifs with hstack hheap
  · refine iff_of_false (by decide) fun hheap => hne (hstack.symm.trans hheap)
  · exact iff_of_true rfl hheap
  · exact iff_of_false (by decide) hheap

theorem mem_words {items : List NumaItem} {w : List Char} :
    w ∈ items.filterMap NumaItem.word? ↔ .word w ∈ items := by
  rw [List.mem_filterMap]
  constructor
  · intro h
    obtain ⟨item, hitem, hword⟩ := h
    cases item with
    | word text =>
      cases hword
      exact hitem
    | _ => cases hword
  · exact fun h => ⟨_, h, rfl⟩

end NumaMaps

namespace NumaLine

open NumaMaps

variable (l : NumaLine)

/-- **The type is that of the line** exactly when it is the last word. -/
theorem withItems_memType_eq :
    l.withItems.memType = l.type ↔
      ∀ word ∈ l.items.filterMap NumaItem.word?, word = stackText ∨ word = heapText →
        (l.items.filterMap NumaItem.word?).getLast? = some word := by
  rw [withItems, foldl_apply_memType, type]
  simp only [← mem_words]
  have hone : stackText ∈ l.items.filterMap NumaItem.word? →
      heapText ∉ l.items.filterMap NumaItem.word? := by
    rw [mem_words, mem_words]
    exact l.one_type
  generalize l.items.filterMap NumaItem.word? = ws at hone
  cases hlast : ws.getLast? with
  | none =>
    obtain rfl := List.getLast?_eq_none_iff.1 hlast
    simp [start]
  | some w =>
    have hw : w ∈ ws := List.mem_of_getLast? hlast
    simp only [Option.map_some, Option.getD_some, Option.some.injEq]
    split_ifs with hstack hheap
    · rw [getMemType_eq_stack]
      constructor
      · rintro rfl word hword (rfl | rfl)
        · rfl
        · exact absurd hword (hone hstack)
      · exact fun h => h stackText hstack (.inl rfl)
    · rw [getMemType_eq_heap]
      constructor
      · rintro rfl word hword (rfl | rfl)
        · exact absurd hword hstack
        · rfl
      · exact fun h => h heapText hheap (.inr rfl)
    · refine iff_of_true ?_ ?_
      · rw [getMemType, if_neg, if_neg]
        · rintro rfl
          exact hheap hw
        · rintro rfl
          exact hstack hw
      · rintro word hword (rfl | rfl)
        · exact absurd hword hstack
        · exact absurd hword hheap

/-- The sum of a line, in 32 bits. -/
theorem block_pagesSum (hfits : ∀ item ∈ l.items, item.Fits) :
    l.block.pagesSum = (l.pages : Int).bmod 4294967296 := by
  have hsum := sum_numPages (b := l.start) l.node_nodup hfits fun _ _ => rfl
  have hzero : ∑ j, max 0 (l.start.numPagesOnNode j) = 0 := Finset.sum_eq_zero fun _ _ => rfl
  rw [hzero, zero_add] at hsum
  rw [block, sumPages_eq]
  exact congrArg (Int.bmod · 4294967296) hsum

theorem block_pagesSum_eq (hfits : ∀ item ∈ l.items, item.Fits) :
    l.block.pagesSum = l.pages ↔ l.pages ≤ 2147483647 := by
  rw [l.block_pagesSum hfits]
  constructor
  · intro heq
    have hlt : (l.pages : Int).bmod 4294967296 < (4294967296 + 1) / 2 := Int.bmod_lt (by decide)
    omega
  · exact fun hle => Int.bmod_eq_of_le (by omega) (by omega)

/-- **A block describes its line** exactly when its type and its sum do. -/
theorem describes_block_iff (hfits : ∀ item ∈ l.items, item.Fits) :
    l.Describes l.block ↔
      (∀ word ∈ l.items.filterMap NumaItem.word?, word = stackText ∨ word = heapText →
        (l.items.filterMap NumaItem.word?).getLast? = some word) ∧ l.pages ≤ 2147483647 := by
  rw [← l.withItems_memType_eq, ← l.block_pagesSum_eq hfits]
  constructor
  · exact fun h => ⟨h.type, h.sum⟩
  · intro h
    obtain ⟨htype, hsum⟩ := h
    exact
      { address := foldl_apply_address l.items l.start
        policy := foldl_apply_numaPolicy l.items l.start
        type := htype
        counts := fun i n hmem =>
          ⟨(hfits _ hmem).1, numPages_of_count (j := ⟨i, (hfits _ hmem).1⟩) l.node_nodup hmem _⟩
        no_count := fun j hno => numPages_of_no_count hno l.start
        sum := hsum }

/-- **A line is read as what it describes** exactly when it fits. -/
theorem exists_block_iff : (∃ b, lineBlock l.text = .ok b ∧ l.Describes b) ↔ l.Fits := by
  constructor
  · intro h
    obtain ⟨b, hread, hdescribes⟩ := h
    rcases (l.lineBlock_text b).1 hread with ⟨hlarge, rfl⟩ | ⟨haddress, hpolicy, hfits, rfl⟩
    · exact absurd hdescribes.address hlarge.ne
    · obtain ⟨htype, hsum⟩ := (l.describes_block_iff hfits).1 hdescribes
      exact ⟨haddress, hpolicy, hfits, htype, hsum⟩
  · intro h
    exact ⟨l.block, (l.lineBlock_text _).2 (.inr ⟨h.address, h.policy, h.items, rfl⟩),
      (l.describes_block_iff h.items).2 ⟨h.type_last, h.sum⟩⟩

end NumaLine

namespace NumaMaps

/-! ## Texts -/

/-- Each line that is read appends its block. -/
theorem foldlM_readLine (lines : List (List Char)) (memBlocks ret : List MemBlock) :
    lines.foldlM readLine memBlocks = .ok ret ↔
      ∃ bs, ret = memBlocks ++ bs ∧
        List.Forall₂ (fun line b => lineBlock line = .ok b) lines bs := by
  induction lines generalizing memBlocks with
  | nil => simp [pure, Except.pure, eq_comm]
  | cons line lines ih =>
    rw [List.foldlM_cons, Runs.bind_eq_ok]
    constructor
    · intro h
      obtain ⟨read, hread, hrest⟩ := h
      obtain ⟨bs, rfl, hbs⟩ := (ih read).1 hrest
      rw [readLine] at hread
      split at hread
      · cases hread
      · next b hb =>
        cases hread
        exact ⟨b :: bs, by simp, .cons hb hbs⟩
    · intro h
      obtain ⟨bs, rfl, hbs⟩ := h
      cases hbs with
      | cons hb hbs =>
        next b bs =>
        refine ⟨memBlocks ++ [b], by rw [readLine, hb], (ih _).2 ⟨bs, by simp, hbs⟩⟩

/-- The blocks that are read are those of the lines. -/
structure ReadsBack (lines : List NumaLine) (memBlocks : List MemBlock) : Prop where
  blocks : ∃ bs, getMemBlocks (some (Text.unlines (lines.map NumaLine.text))) memBlocks =
      .ok (memBlocks ++ bs) ∧ List.Forall₂ NumaLine.Describes lines bs
  /-- Reading the last item twice changes nothing. -/
  twice : ∀ l ∈ lines, (loopWords l.policy.text (l.items.map NumaItem.text)).foldlM readItem
      l.start = (l.items.map NumaItem.text).foldlM readItem l.start

/-- A list of results, one for each member. -/
theorem exists_forall₂_and {α β : Type*} {R S : α → β → Prop} {as : List α} :
    (∃ bs, List.Forall₂ R as bs ∧ List.Forall₂ S as bs) ↔ ∀ a ∈ as, ∃ b, R a b ∧ S a b := by
  induction as with
  | nil => simp
  | cons a as ih =>
    rw [List.forall_mem_cons, ← ih]
    constructor
    · intro h
      obtain ⟨bs, hR, hS⟩ := h
      cases hR with
      | cons hRb hRbs =>
        cases hS with
        | cons hSb hSbs => exact ⟨⟨_, hRb, hSb⟩, _, hRbs, hSbs⟩
    · intro h
      obtain ⟨⟨b, hRb, hSb⟩, bs, hRbs, hSbs⟩ := h
      exact ⟨b :: bs, .cons hRb hRbs, .cons hSb hSbs⟩

/-- **Texts are read back** exactly when each line fits. -/
theorem readsBack_iff (lines : List NumaLine) (memBlocks : List MemBlock) :
    ReadsBack lines memBlocks ↔ ∀ l ∈ lines, l.Fits := by
  have hlines : Text.lines (Text.unlines (lines.map NumaLine.text)) = lines.map NumaLine.text := by
    refine Text.lines_unlines fun line hline => ?_
    obtain ⟨l, -, rfl⟩ := List.mem_map.1 hline
    exact l.newline_notMem_text
  have hread (ret : List MemBlock) :
      getMemBlocks (some (Text.unlines (lines.map NumaLine.text))) memBlocks = .ok ret ↔
        ∃ bs, ret = memBlocks ++ bs ∧
          List.Forall₂ (fun l b => lineBlock (NumaLine.text l) = .ok b) lines bs := by
    rw [getMemBlocks]
    simp only [hlines, foldlM_readLine, List.forall₂_map_left_iff]
  have hfits : (∀ l ∈ lines, l.Fits) ↔
      ∀ l ∈ lines, ∃ b, lineBlock (NumaLine.text l) = .ok b ∧ l.Describes b :=
    forall₂_congr fun l _ => l.exists_block_iff.symm
  rw [hfits, ← exists_forall₂_and]
  constructor
  · intro h
    obtain ⟨⟨bs, hblocks, hdescribes⟩, -⟩ := h
    obtain ⟨bs', happend, hbs'⟩ := (hread _).1 hblocks
    obtain rfl := List.append_cancel_left happend
    exact ⟨bs, hbs', hdescribes⟩
  · intro h
    obtain ⟨bs, hbs, hdescribes⟩ := h
    refine ⟨⟨bs, (hread _).2 ⟨bs, rfl, hbs⟩, hdescribes⟩, fun l _ => ?_⟩
    exact foldlM_loopWords l.items_valid (Policy.readItem_text l.policy_valid rfl)

def defaultWord : List Char := ['d', 'e', 'f', 'a', 'u', 'l', 't']

theorem otherWord_default : Policy.OtherWord defaultWord where
  word := ⟨by decide, Text.not_blank_of_all (by decide)⟩
  not_prefer := by decide +kernel
  not_stack := by decide +kernel
  not_heap := by decide +kernel
  other_key := Policy.other_key_of_notMem (by decide)

/-- A line with pages on the ninth node of a host. -/
def ninthNode : NumaLine where
  address := ['0']
  policy := .word defaultWord
  items := [.node 8 (.ofNat 1)]
  address_ne := by decide
  address_hex := List.forall_mem_singleton.2 (by decide)
  policy_valid := otherWord_default
  items_valid := by simp [NumaItem.Valid]
  node_nodup := by decide
  one_type := by decide

/-- The assertion fails on a host with more nodes. -/
theorem not_readsBack_ninthNode :
    ¬ ∀ (lines : List NumaLine) (memBlocks : List MemBlock), ReadsBack lines memBlocks := by
  intro h
  obtain ⟨bs, hblocks, -⟩ := (h [ninthNode] []).blocks
  have hfails : getMemBlocks (some (Text.unlines [ninthNode.text])) [] =
      .error (.assertionFailed, []) := by
    rfl
  exact nomatch hfails.symm.trans hblocks

end NumaMaps

end LibVsf
