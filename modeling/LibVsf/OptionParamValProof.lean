import LibVsf.OptionParamVal

/-!
# `OptionParamVal`: the string and the tag

An object is its tag and its union, and the two must be kept in step by hand. **The invariant**
(`Sound`): each object stands for a value, each string that is held is the member of one object, and
no other string is held.

Every operation replaces one object, and is of one of three kinds: the object keeps its string or
has none before and after (`Sound.keep`), it loses a string that is destroyed (`Sound.release`), or
it gets one that is constructed (`Sound.acquire`).

**Theorem (`kept_run`).** In every run of operations on objects that are there, nothing undefined
happens, and in every state it reaches the string is alive exactly in the objects with its tag, each
string was constructed once and is destroyed once, and the getters return what was assigned last.
-/

namespace LibVsf

open Handles

namespace OptionParamVal

/-! ## The invariant -/

/-- The string of an object. -/
def Object.string? (o : Object) : Option Nat :=
  match o.member with
  | .sval string _ => some string
  | _ => none

/-- The value of an object whose tag is that of its member. -/
def Object.val? (o : Object) : Option OptionParamVal :=
  match o.member with
  | .none => none
  | .sval _ s => if o.type = .str then some (.str s) else none
  | .scalar x => if o.type = x.tag then some x.val else none

/-- The string at an address. -/
def Objects.stringAt (m : Objects) (self : Nat) : Option Nat := (m.objs self).bind Object.string?

structure Sound (m : Objects) (vals : Vals) : Prop where
  vals : ∀ self, (m.objs self).map Object.val? = (vals self).map some
  owner : ∀ self self' k, m.stringAt self = some k → m.stringAt self' = some k → self = self'
  held : ∀ k, k ∈ held m.log ↔ ∃ self, m.stringAt self = some k
  fresh : Fresh m.log
  proper : Proper m.log
  constructed : ∀ k, m.log.count (.acquired k) = if k < m.strings then 1 else 0

theorem sound_nil : Sound {} fun _ => none where
  vals := fun _ => rfl
  owner := by
    intro self self' k h
    cases h
  held := by
    intro k
    simp [Objects.stringAt, Handles.held]
  fresh := trivial
  proper := trivial
  constructed := by simp

section Step

variable {m : Objects} {vals : Vals} {self : Nat} {new : Option Object} {x : Option OptionParamVal}

theorem map_update (h : Sound m vals) (hnew : new.map Object.val? = x.map some) (self' : Nat) :
    (Function.update m.objs self new self').map Object.val? =
      (Function.update vals self x self').map some := by
  by_cases heq : self' = self
  · subst heq
    rw [Function.update_self, Function.update_self, hnew]
  · rw [Function.update_of_ne heq, Function.update_of_ne heq, h.vals]

theorem stringAt_update (objs : Nat → Option Object) (strings : Nat) (log : List (Event Nat))
    (self' : Nat) :
    Objects.stringAt ⟨Function.update objs self new, strings, log⟩ self' =
      if self' = self then new.bind Object.string? else (objs self').bind Object.string? := by
  by_cases heq : self' = self
  · subst heq
    simp [Objects.stringAt]
  · simp [Objects.stringAt, heq]

/-- **The string stays**, or there is none. -/
theorem Sound.keep (h : Sound m vals) (hnew : new.map Object.val? = x.map some)
    (hstring : new.bind Object.string? = m.stringAt self) :
    Sound { m with objs := Function.update m.objs self new } (Function.update vals self x) := by
  have hsame (self' : Nat) :
      Objects.stringAt { m with objs := Function.update m.objs self new } self' =
        m.stringAt self' := by
    rw [stringAt_update]
    split_ifs with heq
    · rw [hstring, heq]
    · rfl
  exact
    { vals := map_update h hnew
      owner := by
        simp only [hsame]
        exact h.owner
      held := by
        simp only [hsame]
        exact h.held
      fresh := h.fresh
      proper := h.proper
      constructed := h.constructed }

theorem held_append (log : List (Event Nat)) (e : Event Nat) :
    Handles.held (log ++ [e]) = hold (Handles.held log) e :=
  Runs.run_concat hold 0 log e

/-- **A string is destroyed**, with its object or before another member is written. -/
theorem Sound.release (h : Sound m vals) (hnew : new.map Object.val? = x.map some) {k : Nat}
    (hold : m.stringAt self = some k) (hnone : new.bind Object.string? = none) :
    Sound { m with objs := Function.update m.objs self new, log := m.log ++ [.released k] }
      (Function.update vals self x) := by
  have hk : k ∈ Handles.held m.log := (h.held k).2 ⟨self, hold⟩
  have hothers (self' k' : Nat) :
      Objects.stringAt { m with
          objs := Function.update m.objs self new
          log := m.log ++ [.released k] } self' = some k' ↔
        self' ≠ self ∧ m.stringAt self' = some k' := by
    rw [stringAt_update]
    split_ifs with heq
    · simp [hnone, heq]
    · simp [heq, Objects.stringAt]
  refine
    { vals := map_update h hnew
      owner := ?_
      held := ?_
      fresh := (Runs.along_append _).2 ⟨h.fresh, trivial, trivial⟩
      proper := (Runs.along_append _).2 ⟨h.proper, hk, trivial⟩
      constructed := ?_ }
  · intro self' self'' k' h' h''
    exact h.owner self' self'' k' ((hothers _ _).1 h').2 ((hothers _ _).1 h'').2
  · intro k'
    rw [held_append]
    show k' ∈ (Handles.held m.log).erase k ↔ _
    simp only [h.fresh.nodup_held.mem_erase_iff, h.held, hothers]
    constructor
    · intro h
      obtain ⟨hne, self', hself'⟩ := h
      refine ⟨self', ?_, hself'⟩
      rintro rfl
      exact hne (Option.some.inj (hself'.symm.trans hold))
    · intro h
      obtain ⟨self', hne, hself'⟩ := h
      refine ⟨?_, self', hself'⟩
      rintro rfl
      exact hne (h.owner self' self k' hself' hold)
  · intro k'
    rw [← h.constructed k', List.count_append]
    simp

/-- The next string has not been constructed yet. -/
theorem Sound.not_held (h : Sound m vals) : m.strings ∉ Handles.held m.log := by
  intro hmem
  have hturns : Turns 0 m.log (Handles.held m.log) := ⟨h.proper, rfl⟩
  have hcount := hturns.count_add m.strings
  have hpos := Multiset.count_pos.2 hmem
  have hnone := h.constructed m.strings
  rw [if_neg (lt_irrefl _)] at hnone
  rw [hnone, Multiset.count_zero] at hcount
  omega

/-- **A string is constructed** where there was none. -/
theorem Sound.acquire (h : Sound m vals) (hnew : new.map Object.val? = x.map some)
    (hold : m.stringAt self = none) (hsome : new.bind Object.string? = some m.strings) :
    Sound { m with
        objs := Function.update m.objs self new
        strings := m.strings + 1
        log := m.log ++ [.acquired m.strings] }
      (Function.update vals self x) := by
  have hstrings (self' k' : Nat) :
      Objects.stringAt { m with
          objs := Function.update m.objs self new
          strings := m.strings + 1
          log := m.log ++ [.acquired m.strings] } self' = some k' ↔
        (self' = self ∧ k' = m.strings) ∨ m.stringAt self' = some k' := by
    rw [stringAt_update]
    split_ifs with heq
    · subst heq
      simp [hsome, hold, eq_comm]
    · simp [heq, Objects.stringAt]
  have hlt {self' k' : Nat} (h' : m.stringAt self' = some k') : k' ≠ m.strings := by
    rintro rfl
    exact h.not_held ((h.held _).2 ⟨self', h'⟩)
  refine
    { vals := map_update h hnew
      owner := ?_
      held := ?_
      fresh := (Runs.along_append _).2 ⟨h.fresh, h.not_held, trivial⟩
      proper := (Runs.along_append _).2 ⟨h.proper, trivial, trivial⟩
      constructed := ?_ }
  · intro self' self'' k' h' h''
    rcases (hstrings _ _).1 h' with ⟨rfl, rfl⟩ | h'
    · rcases (hstrings _ _).1 h'' with ⟨rfl, -⟩ | h''
      · rfl
      · exact absurd rfl (hlt h'')
    · rcases (hstrings _ _).1 h'' with ⟨-, rfl⟩ | h''
      · exact absurd rfl (hlt h')
      · exact h.owner self' self'' k' h' h''
  · intro k'
    rw [held_append]
    show k' ∈ m.strings ::ₘ Handles.held m.log ↔ _
    simp only [Multiset.mem_cons, h.held, hstrings, exists_or, exists_eq_left]
  · intro k'
    rw [List.count_append, h.constructed k']
    by_cases heq : k' = m.strings
    · subst heq
      simp
    · have hzero : [Event.acquired m.strings].count (.acquired k') = 0 :=
        List.count_eq_zero.2 (by simp [heq])
      rw [hzero, Nat.add_zero]
      show (if k' < m.strings then 1 else 0) = if k' < m.strings + 1 then 1 else 0
      exact if_congr (by omega) rfl rfl

end Step

/-! ## What an object holds -/

theorem Scalar.tag_ne_str (x : Scalar) : x.tag ≠ .str := by
  cases x <;> exact nofun

/-- An object with a value has the string, or a scalar of its tag. -/
theorem Sound.object {m : Objects} {vals : Vals} (h : Sound m vals) {self : Nat}
    {x : OptionParamVal} (hx : vals self = some x) :
    (∃ k s, m.objs self = some ⟨.str, .sval k s⟩ ∧ x = .str s) ∨
      ∃ y : Scalar, m.objs self = some ⟨y.tag, .scalar y⟩ ∧ x = y.val := by
  have hval := h.vals self
  rw [hx] at hval
  obtain ⟨⟨type, member⟩, ho, hsome⟩ := Option.map_eq_some_iff.1 hval
  cases member with
  | none => cases hsome
  | sval k s =>
    simp only [Object.val?] at hsome
    split_ifs at hsome with htype
    subst htype
    exact .inl ⟨k, s, ho, (Option.some.inj hsome).symm⟩
  | scalar y =>
    simp only [Object.val?] at hsome
    split_ifs at hsome with htype
    subst htype
    exact .inr ⟨y, ho, (Option.some.inj hsome).symm⟩

theorem Sound.no_object {m : Objects} {vals : Vals} (h : Sound m vals) {self : Nat}
    (hx : vals self = none) : m.objs self = none := by
  have hval := h.vals self
  rw [hx] at hval
  exact Option.map_eq_none_iff.1 hval

/-! ## What the functions do -/

namespace Objects

variable {m : Objects} {self : Nat}

/-- The object with a string that is constructed. -/
def withString (m : Objects) (self : Nat) (s : String) : Objects where
  objs := Function.update m.objs self (some ⟨.str, .sval m.strings s⟩)
  strings := m.strings + 1
  log := m.log ++ [.acquired m.strings]

/-- The object with another member after its string is destroyed. -/
def withoutString (m : Objects) (self : Nat) (k : Nat) (new : Option Object) : Objects where
  objs := Function.update m.objs self new
  strings := m.strings
  log := m.log ++ [.released k]

theorem assignString_str {k : Nat} {s : String} (ho : m.objs self = some ⟨.str, .sval k s⟩)
    (s' : String) : m.assignString self s' = .ok (m.put self ⟨.str, .sval k s'⟩) := by
  simp [assignString, object, assignSval, setType, put, ho, bind, Except.bind, pure, Except.pure]

theorem assignString_scalar {x : Scalar} (ho : m.objs self = some ⟨x.tag, .scalar x⟩)
    (s : String) : m.assignString self s = .ok (m.withString self s) := by
  simp [assignString, object, newSval, setType, put, withString, ho, x.tag_ne_str, bind,
    Except.bind, pure, Except.pure]

theorem assignScalar_str {k : Nat} {s : String} (ho : m.objs self = some ⟨.str, .sval k s⟩)
    (x : Scalar) :
    m.assignScalar self x = .ok (m.withoutString self k (some ⟨x.tag, .scalar x⟩)) := by
  simp [assignScalar, object, destroySval, setScalar, setType, put, withoutString, ho, bind,
    Except.bind, pure, Except.pure]

theorem assignScalar_scalar {y : Scalar} (ho : m.objs self = some ⟨y.tag, .scalar y⟩)
    (x : Scalar) : m.assignScalar self x = .ok (m.put self ⟨x.tag, .scalar x⟩) := by
  simp [assignScalar, object, setScalar, setType, put, ho, y.tag_ne_str, bind, Except.bind, pure,
    Except.pure]

/-- An assignment from an object is one from its string, also from itself. -/
theorem assignVal_str {o k : Nat} {s : String} (ho : m.objs o = some ⟨.str, .sval k s⟩)
    (hself : (∃ k' s', m.objs self = some ⟨.str, .sval k' s'⟩) ∨
      ∃ x : Scalar, m.objs self = some ⟨x.tag, .scalar x⟩) :
    m.assignVal self o = m.assignString self s := by
  rcases hself with ⟨k', s', hself⟩ | ⟨x, hself⟩
  · rw [assignString_str hself]
    by_cases heq : o = self
    · subst heq
      rw [ho] at hself
      cases hself
      simp [assignVal, object, sval, assignSval, setType, put, ho, bind, Except.bind, pure,
        Except.pure]
    · simp [assignVal, object, sval, assignSval, setType, put, ho, hself, heq, bind, Except.bind,
        pure, Except.pure]
  · have hne : o ≠ self := by
      rintro rfl
      rw [ho, Option.some.injEq, Object.mk.injEq] at hself
      exact x.tag_ne_str hself.1.symm
    rw [assignString_scalar hself]
    simp [assignVal, copyUnion, object, sval, newSval, setType, put, withString, ho, hself, hne,
      x.tag_ne_str, bind, Except.bind, pure, Except.pure]

/-- An assignment from an object is one from its scalar, also from itself. -/
theorem assignVal_scalar {o : Nat} {y : Scalar} (ho : m.objs o = some ⟨y.tag, .scalar y⟩)
    (hself : (∃ k s, m.objs self = some ⟨.str, .sval k s⟩) ∨
      ∃ x : Scalar, m.objs self = some ⟨x.tag, .scalar x⟩) :
    m.assignVal self o = m.assignScalar self y := by
  rcases hself with ⟨k, s, hself⟩ | ⟨x, hself⟩
  · have hne : o ≠ self := by
      rintro rfl
      rw [ho, Option.some.injEq, Object.mk.injEq] at hself
      exact y.tag_ne_str hself.1
    rw [assignScalar_str hself]
    simp [assignVal, copyUnion, object, destroySval, scalar, setScalar, setType, put, withoutString,
      ho, hself, hne, y.tag_ne_str, bind, Except.bind, pure, Except.pure]
  · rw [assignScalar_scalar hself]
    by_cases heq : o = self
    · subst heq
      simp [assignVal, copyUnion, object, scalar, setScalar, setType, put, ho, y.tag_ne_str, bind,
        Except.bind, pure, Except.pure]
    · simp [assignVal, copyUnion, object, scalar, setScalar, setType, put, ho, hself, heq,
        x.tag_ne_str, y.tag_ne_str, bind, Except.bind, pure, Except.pure]

theorem destroy_str {k : Nat} {s : String} (ho : m.objs self = some ⟨.str, .sval k s⟩) :
    m.destroy self = .ok (m.withoutString self k none) := by
  simp [destroy, object, destroySval, put, remove, withoutString, ho, bind, Except.bind, pure,
    Except.pure]

theorem destroy_scalar {x : Scalar} (ho : m.objs self = some ⟨x.tag, .scalar x⟩) :
    m.destroy self = .ok (m.remove self) := by
  simp [destroy, object, remove, ho, x.tag_ne_str, bind, Except.bind, pure, Except.pure]

theorem construct_none : m.construct self none = .ok (m.put self ⟨.int, .scalar (.int 0)⟩) := by
  simp [construct, setScalar, object, put, bind, Except.bind, pure, Except.pure]

theorem construct_string (s : String) :
    m.construct self (some (.string s)) = .ok (m.withString self s) := by
  simp [construct, newSval, object, put, withString, bind, Except.bind, pure, Except.pure]

theorem construct_scalar (x : Scalar) :
    m.construct self (some (.scalar x)) = .ok (m.put self ⟨x.tag, .scalar x⟩) := by
  simp [construct, setScalar, object, put, bind, Except.bind, pure, Except.pure]

/-- A copy is constructed from the value of another object. -/
theorem construct_val_str {o k : Nat} {s : String} (ho : m.objs o = some ⟨.str, .sval k s⟩)
    (hself : m.objs self = none) :
    m.construct self (some (.val o)) = .ok (m.withString self s) := by
  have hne : o ≠ self := by
    rintro rfl
    rw [ho] at hself
    cases hself
  simp [construct, copyUnion, sval, newSval, object, put, withString, ho, hne, bind, Except.bind,
    pure, Except.pure]

theorem construct_val_scalar {o : Nat} {x : Scalar} (ho : m.objs o = some ⟨x.tag, .scalar x⟩)
    (hself : m.objs self = none) :
    m.construct self (some (.val o)) = .ok (m.put self ⟨x.tag, .scalar x⟩) := by
  have hne : o ≠ self := by
    rintro rfl
    rw [ho] at hself
    cases hself
  simp [construct, copyUnion, scalar, setScalar, object, put, ho, hne, x.tag_ne_str, bind,
    Except.bind, pure, Except.pure]

end Objects

/-! ## One operation -/

section Sound

variable {m : Objects} {vals : Vals} {self : Nat}

theorem stringAt_eq {o : Option Object} (ho : m.objs self = o) :
    m.stringAt self = o.bind Object.string? :=
  congrArg (Option.bind · Object.string?) ho

/-- An assignment of a text, over any value. -/
theorem Sound.assignString (h : Sound m vals) {x : OptionParamVal} (hx : vals self = some x)
    (s : String) :
    ∃ m', m.assignString self s = .ok m' ∧
      Sound m' (Function.update vals self (some (.str s))) := by
  rcases h.object hx with ⟨k, s', ho, -⟩ | ⟨y, ho, -⟩
  · exact ⟨_, Objects.assignString_str ho s, h.keep rfl (stringAt_eq ho).symm⟩
  · exact ⟨_, Objects.assignString_scalar ho s, h.acquire rfl (stringAt_eq ho) rfl⟩

theorem map_val?_scalar (y : Scalar) :
    (some (⟨y.tag, .scalar y⟩ : Object)).map Object.val? = (some y.val).map some := by
  simp [Object.val?]

theorem Sound.assignScalar (h : Sound m vals) {x : OptionParamVal} (hx : vals self = some x)
    (y : Scalar) :
    ∃ m', m.assignScalar self y = .ok m' ∧ Sound m' (Function.update vals self (some y.val)) := by
  rcases h.object hx with ⟨k, s', ho, -⟩ | ⟨z, ho, -⟩
  · exact ⟨_, Objects.assignScalar_str ho y,
      h.release (map_val?_scalar y) (stringAt_eq ho) rfl⟩
  · exact ⟨_, Objects.assignScalar_scalar ho y,
      h.keep (map_val?_scalar y) (stringAt_eq ho).symm⟩

/-- **An assignment**, from any source and over any value. -/
theorem Sound.assign (h : Sound m vals) {x : OptionParamVal} (hx : vals self = some x)
    {source : Source} (hsource : source.value vals ≠ none) :
    ∃ m', m.assign self source = .ok m' ∧
      Sound m' (Function.update vals self (source.value vals)) := by
  cases source with
  | string s => exact h.assignString hx s
  | cString s => exact h.assignString hx (String.ofList (Text.cString s))
  | scalar y => exact h.assignScalar hx y
  | val o =>
    have hself : (∃ k s, m.objs self = some ⟨.str, .sval k s⟩) ∨
        ∃ y : Scalar, m.objs self = some ⟨y.tag, .scalar y⟩ := by
      rcases h.object hx with ⟨k, s, ho, -⟩ | ⟨y, ho, -⟩
      · exact .inl ⟨k, s, ho⟩
      · exact .inr ⟨y, ho⟩
    obtain ⟨v, hv⟩ := Option.ne_none_iff_exists'.1 hsource
    rw [hv]
    rw [Source.value] at hv
    rcases h.object hv with ⟨k, s, ho, rfl⟩ | ⟨y, ho, rfl⟩
    · obtain ⟨m', hm', hsound⟩ := h.assignString hx s
      exact ⟨m', (Objects.assignVal_str ho hself).trans hm', hsound⟩
    · obtain ⟨m', hm', hsound⟩ := h.assignScalar hx y
      exact ⟨m', (Objects.assignVal_scalar ho hself).trans hm', hsound⟩

/-- **A construction**, from any source. -/
theorem Sound.construct (h : Sound m vals) (hx : vals self = none) {source : Source}
    (hsource : source.value vals ≠ none) :
    ∃ m', m.construct self (some source) = .ok m' ∧
      Sound m' (Function.update vals self (source.value vals)) := by
  have hnone := h.no_object hx
  have hstring (s : String) :
      Sound (m.withString self s) (Function.update vals self (some (.str s))) :=
    h.acquire rfl (stringAt_eq hnone) rfl
  have hscalar (y : Scalar) :
      Sound (m.put self ⟨y.tag, .scalar y⟩) (Function.update vals self (some y.val)) :=
    h.keep (map_val?_scalar y) (stringAt_eq hnone).symm
  cases source with
  | string s => exact ⟨_, Objects.construct_string s, hstring s⟩
  | cString s => exact ⟨_, Objects.construct_string _, hstring _⟩
  | scalar y => exact ⟨_, Objects.construct_scalar y, hscalar y⟩
  | val o =>
    obtain ⟨v, hv⟩ := Option.ne_none_iff_exists'.1 hsource
    rw [hv]
    rw [Source.value] at hv
    rcases h.object hv with ⟨k, s, ho, rfl⟩ | ⟨y, ho, rfl⟩
    · exact ⟨_, Objects.construct_val_str ho hnone, hstring s⟩
    · exact ⟨_, Objects.construct_val_scalar ho hnone, hscalar y⟩

/-- **Every operation** on objects that are there is defined and keeps the invariant. -/
theorem Sound.step (h : Sound m vals) {op : Op} (hvalid : op.Valid vals) :
    ∃ m', m.step op = .ok m' ∧ Sound m' (vals.step op) := by
  cases op with
  | construct self source =>
    cases source with
    | none =>
      exact ⟨_, Objects.construct_none,
        h.keep rfl (stringAt_eq (h.no_object hvalid)).symm⟩
    | some source => exact h.construct hvalid.1 hvalid.2
  | assign self source =>
    obtain ⟨x, hx⟩ := Option.ne_none_iff_exists'.1 hvalid.1
    exact h.assign hx hvalid.2
  | destroy self =>
    obtain ⟨x, hx⟩ := Option.ne_none_iff_exists'.1 hvalid
    rcases h.object hx with ⟨k, s, ho, -⟩ | ⟨y, ho, -⟩
    · exact ⟨_, Objects.destroy_str ho, h.release rfl (stringAt_eq ho) rfl⟩
    · exact ⟨_, Objects.destroy_scalar ho, h.keep rfl (stringAt_eq ho).symm⟩

end Sound

/-! ## Runs -/

/-- What holds in a state where the objects have these values. -/
structure Kept (m : Objects) (vals : Vals) : Prop where
  objects : ∀ self, m.objs self = none ↔ vals self = none
  /-- The string member is alive: it was constructed, and is not destroyed. -/
  alive : ∀ self o, m.objs self = some o →
    ((∃ k s, o.member = .sval k s ∧ k ∈ held m.log) ↔ o.type = .str)
  constructed_once : ∀ k < m.strings, m.log.count (.acquired k) = 1
  /-- A string that no object has any more is destroyed, once. -/
  destroyed_once : ∀ k < m.strings, (∀ self, m.stringAt self ≠ some k) →
    m.log.count (.released k) = 1
  not_destroyed : ∀ self k, m.stringAt self = some k → m.log.count (.released k) = 0
  /-- No string is destroyed before it is constructed, or twice. -/
  proper : Proper m.log
  getString : ∀ self x, vals self = some x → m.getString self = .ok x.getString
  getChar : ∀ self x, vals self = some x → m.getChar self = .ok x.getChar
  getInt : ∀ self x, vals self = some x → m.getInt self = .ok x.getInt
  getDouble : ∀ self x, vals self = some x → m.getDouble self = .ok x.getDouble
  getPointer : ∀ self x, vals self = some x → m.getPointer self = .ok x.getPointer

section Kept

variable {m : Objects} {vals : Vals}

theorem Sound.objects (h : Sound m vals) (self : Nat) : m.objs self = none ↔ vals self = none := by
  refine ⟨fun hnone => ?_, h.no_object⟩
  have hval := h.vals self
  rw [hnone] at hval
  exact Option.map_eq_none_iff.1 hval.symm

/-- The string of an object with its tag is held. -/
theorem Sound.alive (h : Sound m vals) {self : Nat} {o : Object} (ho : m.objs self = some o) :
    (∃ k s, o.member = .sval k s ∧ k ∈ Handles.held m.log) ↔ o.type = .str := by
  obtain ⟨x, hx⟩ : ∃ x, vals self = some x := by
    rw [← Option.ne_none_iff_exists']
    intro hnone
    rw [h.no_object hnone] at ho
    cases ho
  rcases h.object hx with ⟨k, s, hstr, -⟩ | ⟨y, hscalar, -⟩
  · obtain rfl := Option.some.inj (ho.symm.trans hstr)
    exact iff_of_true ⟨k, s, rfl, (h.held k).2 ⟨self, stringAt_eq ho⟩⟩ rfl
  · obtain rfl := Option.some.inj (ho.symm.trans hscalar)
    refine iff_of_false ?_ y.tag_ne_str
    intro h
    obtain ⟨k, s, hmember, -⟩ := h
    cases hmember

/-- Each string is held or destroyed, once. -/
theorem Sound.count_released (h : Sound m vals) {k : Nat} (hk : k < m.strings) :
    (Handles.held m.log).count k + m.log.count (.released k) = 1 := by
  have hturns : Turns 0 m.log (Handles.held m.log) := ⟨h.proper, rfl⟩
  have hcount := hturns.count_add k
  rw [h.constructed, if_pos hk, Multiset.count_zero, Nat.zero_add] at hcount
  exact hcount

theorem Sound.destroyed_once (h : Sound m vals) {k : Nat} (hk : k < m.strings)
    (hno : ∀ self, m.stringAt self ≠ some k) : m.log.count (.released k) = 1 := by
  have hcount := h.count_released hk
  have hnot : k ∉ Handles.held m.log := by
    rw [h.held]
    intro h
    obtain ⟨self, hself⟩ := h
    exact hno self hself
  rwa [Multiset.count_eq_zero.2 hnot, Nat.zero_add] at hcount

theorem Sound.not_destroyed (h : Sound m vals) {self k : Nat} (hk : m.stringAt self = some k) :
    m.log.count (.released k) = 0 := by
  have hheld : k ∈ Handles.held m.log := (h.held k).2 ⟨self, hk⟩
  have hpos := Multiset.count_pos.2 hheld
  by_cases hlt : k < m.strings
  · have hcount := h.count_released hlt
    omega
  · have hturns : Turns 0 m.log (Handles.held m.log) := ⟨h.proper, rfl⟩
    have hcount := hturns.count_add k
    rw [h.constructed, if_neg hlt, Multiset.count_zero] at hcount
    omega

theorem Sound.getters (h : Sound m vals) {self : Nat} {x : OptionParamVal}
    (hx : vals self = some x) :
    m.getString self = .ok x.getString ∧ m.getChar self = .ok x.getChar ∧
      m.getInt self = .ok x.getInt ∧ m.getDouble self = .ok x.getDouble ∧
      m.getPointer self = .ok x.getPointer := by
  rcases h.object hx with ⟨k, s, ho, rfl⟩ | ⟨y, ho, rfl⟩
  · simp [Objects.getString, Objects.getChar, Objects.getInt, Objects.getDouble,
      Objects.getPointer, Objects.object, Objects.sval, ho, OptionParamVal.getString,
      OptionParamVal.getChar, OptionParamVal.getInt, OptionParamVal.getDouble,
      OptionParamVal.getPointer, bind, Except.bind, pure, Except.pure]
  · cases y <;>
      simp [Objects.getString, Objects.getChar, Objects.getInt, Objects.getDouble,
        Objects.getPointer, Objects.object, Objects.scalar, ho, Scalar.tag, Scalar.val,
        OptionParamVal.getString, OptionParamVal.getChar, OptionParamVal.getInt,
        OptionParamVal.getDouble, OptionParamVal.getPointer, bind, Except.bind, pure, Except.pure]

theorem Sound.kept (h : Sound m vals) : Kept m vals where
  objects := h.objects
  alive := fun _ _ ho => h.alive ho
  constructed_once := fun k hk => (h.constructed k).trans (if_pos hk)
  destroyed_once := fun _ hk hno => h.destroyed_once hk hno
  not_destroyed := fun _ _ hk => h.not_destroyed hk
  proper := h.proper
  getString := fun _ _ hx => (h.getters hx).1
  getChar := fun _ _ hx => (h.getters hx).2.1
  getInt := fun _ _ hx => (h.getters hx).2.2.1
  getDouble := fun _ _ hx => (h.getters hx).2.2.2.1
  getPointer := fun _ _ hx => (h.getters hx).2.2.2.2

end Kept

/-- **The string and the tag are kept in step**, in every run. -/
theorem kept_run {ops : List Op} (h : Runs.Along Vals.step (fun vals op => op.Valid vals)
      (fun _ => none) ops) :
    ∃ m, Runs.runE Objects.step {} ops = .ok m ∧
      Kept m (Runs.run Vals.step (fun _ => none) ops) := by
  obtain ⟨m, hrun, hsound⟩ := Runs.exists_runE_of_along Objects.step
    (fun _ _ _ hsound hvalid => hsound.step hvalid) sound_nil h
  exact ⟨m, hrun, hsound.kept⟩

/-- A string over a number, then over a string, assigned to itself and copied, and destroyed. -/
def fewOps : List Op :=
  [.construct 0 none, .assign 0 (.string "a"), .construct 1 (some (.val 0)), .assign 0 (.val 0),
    .assign 1 (.scalar (.char 'c')), .assign 1 (.val 0), .destroy 0, .destroy 1]

theorem kept_run_fewOps :
    ∃ m, Runs.runE Objects.step {} fewOps = .ok m ∧
      Kept m (Runs.run Vals.step (fun _ => none) fewOps) := by
  refine kept_run ?_
  simp [fewOps, Runs.Along, Op.Valid, Vals.step, Source.value]

end OptionParamVal

end LibVsf
