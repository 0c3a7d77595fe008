import LibVsf.FuncOption
import LibVsf.Lib.Handles
import LibVsf.Lib.Text
import Mathlib.Logic.Function.Basic

/-!
# `OptionParamVal`: a union with a string

`utils/func_option.h`, `func_option.cpp`. An object has a tag and an anonymous union, whose string
is constructed and destroyed by hand. Each string that is constructed has a number; the log says
which are constructed and destroyed. What C++ leaves undefined fails: to read or assign a member
that is not the one written last, or to destroy a string that is not there.
-/

namespace LibVsf

namespace OptionParamVal

/-- `enum {STR, CHAR, INT, DBL, PTR} type`. -/
inductive Tag where
  | str | char | int | dbl | ptr
deriving DecidableEq, Repr

/-- A value of the members without a destructor. -/
inductive Scalar where
  | char (cval : Char)
  | int (ival : Int)
  | dbl (dval : ℚ)
  | ptr (pval : Option Nat)
deriving DecidableEq, Repr

def Scalar.tag : Scalar → Tag
  | char _ => .char
  | int _ => .int
  | dbl _ => .dbl
  | ptr _ => .ptr

def Scalar.val : Scalar → OptionParamVal
  | char cval => .char cval
  | int ival => .int ival
  | dbl dval => .dbl dval
  | ptr pval => .ptr pval

/-- The member of the union that was written last; none after its string was destroyed. -/
inductive Member where
  | none
  | sval (string : Nat) (s : String)
  | scalar (x : Scalar)
deriving DecidableEq, Repr

structure Object where
  type : Tag
  member : Member
deriving DecidableEq, Repr

/-- What a value is constructed or assigned from. A `char` pointer is to an array. -/
inductive Source where
  | val (o : Nat)
  | string (s : String)
  | cString (s : List Char)
  | scalar (x : Scalar)
deriving DecidableEq, Repr

/-- The objects, by their addresses. -/
structure Objects where
  objs : Nat → Option Object := fun _ => none
  /-- The number of strings that were constructed. -/
  strings : Nat := 0
  log : List (Handles.Event Nat) := []

inductive Undefined where
  | noObject
  | noString
  | otherMember
deriving DecidableEq, Repr

abbrev Result := Except Undefined

namespace Objects

/-! ## Memory -/

def object (m : Objects) (self : Nat) : Result Object :=
  match m.objs self with
  | none => .error .noObject
  | some o => .ok o

def put (m : Objects) (self : Nat) (o : Object) : Objects :=
  { m with objs := Function.update m.objs self (some o) }

def remove (m : Objects) (self : Nat) : Objects :=
  { m with objs := Function.update m.objs self none }

def setType (m : Objects) (self : Nat) (type : Tag) : Result Objects := do
  let o ← m.object self
  return m.put self { o with type := type }

/-- `new(&sval) string(s)`. A string that is there is lost. -/
def newSval (m : Objects) (self : Nat) (s : String) : Result Objects := do
  let o ← m.object self
  return { m.put self { o with member := .sval m.strings s } with
    strings := m.strings + 1
    log := m.log ++ [.acquired m.strings] }

/-- `sval.~string()`. -/
def destroySval (m : Objects) (self : Nat) : Result Objects := do
  let o ← m.object self
  match o.member with
  | .sval string _ =>
    return { m.put self { o with member := .none } with log := m.log ++ [.released string] }
  | _ => .error .noString

def sval (m : Objects) (self : Nat) : Result String := do
  let o ← m.object self
  match o.member with
  | .sval _ s => return s
  | _ => .error .noString

/-- `sval = s`. -/
def assignSval (m : Objects) (self : Nat) (s : String) : Result Objects := do
  let o ← m.object self
  match o.member with
  | .sval string _ => return m.put self { o with member := .sval string s }
  | _ => .error .noString

/-- `cval`, `ival`, `dval` or `pval`, which is the one of the tag. -/
def scalar (m : Objects) (self : Nat) (type : Tag) : Result Scalar := do
  let o ← m.object self
  match o.member with
  | .scalar x => if x.tag = type then return x else .error .otherMember
  | _ => .error .otherMember

/-- An assignment of one of these. A string that is there is lost. -/
def setScalar (m : Objects) (self : Nat) (x : Scalar) : Result Objects := do
  let o ← m.object self
  return m.put self { o with member := .scalar x }

/-! ## Constructors, destructor and assignments -/

def copyUnion (m : Objects) (self o : Nat) : Result Objects := do
  let source ← m.object o
  if source.type = .str then
    let s ← m.sval o
    m.newSval self s
  else
    let x ← m.scalar o source.type
    m.setScalar self x

/-- The constructors; without an argument the value is the integer zero. -/
def construct (m : Objects) (self : Nat) : Option Source → Result Objects
  | none => (m.put self ⟨.int, .none⟩).setScalar self (.int 0)
  | some (.val o) => do
    let source ← m.object o
    (m.put self ⟨source.type, .none⟩).copyUnion self o
  | some (.string s) => (m.put self ⟨.str, .none⟩).newSval self s
  | some (.cString s) => (m.put self ⟨.str, .none⟩).newSval self (String.ofList (Text.cString s))
  | some (.scalar x) => (m.put self ⟨x.tag, .none⟩).setScalar self x

/-- `~OptionParamVal`. -/
def destroy (m : Objects) (self : Nat) : Result Objects := do
  let o ← m.object self
  let m ← if o.type = .str then m.destroySval self else pure m
  return m.remove self

/-- `operator=(const OptionParamVal&)`; the two may be the same object. Neither tag changes before
the last line. -/
def assignVal (m : Objects) (self o : Nat) : Result Objects := do
  let type := (← m.object self).type
  let oType := (← m.object o).type
  let m ← if type = .str ∧ oType ≠ .str then m.destroySval self else pure m
  let m ← if type = .str ∧ oType = .str then m.sval o >>= m.assignSval self
    else m.copyUnion self o
  m.setType self (← m.object o).type

/-- `operator=(const string&)` and `operator=(const char *)`. -/
def assignString (m : Objects) (self : Nat) (s : String) : Result Objects := do
  let o ← m.object self
  let m ← if o.type = .str then m.assignSval self s else m.newSval self s
  m.setType self .str

/-- The assignments from `char`, `int`, `double` and `void *`. -/
def assignScalar (m : Objects) (self : Nat) (x : Scalar) : Result Objects := do
  let o ← m.object self
  let m ← if o.type = .str then m.destroySval self else pure m
  let m ← m.setScalar self x
  m.setType self x.tag

def assign (m : Objects) (self : Nat) : Source → Result Objects
  | .val o => m.assignVal self o
  | .string s => m.assignString self s
  | .cString s => m.assignString self (String.ofList (Text.cString s))
  | .scalar x => m.assignScalar self x

/-! ## Getters -/

def getString (m : Objects) (self : Nat) : Result String := do
  let o ← m.object self
  if o.type = .str then m.sval self else return ""

def getChar (m : Objects) (self : Nat) : Result Char := do
  let o ← m.object self
  if o.type = .char then return (← m.scalar self .char).val.getChar else return Char.ofNat 0

def getInt (m : Objects) (self : Nat) : Result Int := do
  let o ← m.object self
  if o.type = .int then return (← m.scalar self .int).val.getInt else return 0

def getDouble (m : Objects) (self : Nat) : Result ℚ := do
  let o ← m.object self
  if o.type = .dbl then return (← m.scalar self .dbl).val.getDouble else return 0

def getPointer (m : Objects) (self : Nat) : Result (Option Nat) := do
  let o ← m.object self
  if o.type = .ptr then return (← m.scalar self .ptr).val.getPointer else return none

end Objects

/-! ## Operations -/

inductive Op where
  | construct (self : Nat) (source : Option Source)
  | assign (self : Nat) (source : Source)
  | destroy (self : Nat)
deriving DecidableEq, Repr

def Objects.step (m : Objects) : Op → Result Objects
  | .construct self source => m.construct self source
  | .assign self source => m.assign self source
  | .destroy self => m.destroy self

/-! ## What the operations are for -/

/-- The values of the objects. -/
abbrev Vals := Nat → Option OptionParamVal

/-- The value that is constructed or assigned. -/
def Source.value (vals : Vals) : Source → Option OptionParamVal
  | .val o => vals o
  | .string s => some (.str s)
  | .cString s => some (.str (String.ofList (Text.cString s)))
  | .scalar x => some x.val

def Vals.step (vals : Vals) : Op → Vals
  | .construct self none => Function.update vals self (some (.int 0))
  | .construct self (some source) => Function.update vals self (source.value vals)
  | .assign self source => Function.update vals self (source.value vals)
  | .destroy self => Function.update vals self none

/-- An object is constructed where there is none, from what is there, and assigned and destroyed
while it is there. -/
def Op.Valid (vals : Vals) : Op → Prop
  | .construct self none => vals self = none
  | .construct self (some source) => vals self = none ∧ source.value vals ≠ none
  | .assign self source => vals self ≠ none ∧ source.value vals ≠ none
  | .destroy self => vals self ≠ none

end OptionParamVal

end LibVsf
