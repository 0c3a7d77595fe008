import LibVsf.Lib.Maps
import Mathlib.Data.Rat.Defs

/-!
# The option store

The options of the framework, their parameters and the store `FuncOption` that holds the
parameters of every enabled option (`define_func_option.h`, `func_option.cpp`). A `std::map` is
an ordered tree map over the same keys.

A parameter value is a tagged union. A callback travels through the store as a `void *` to a
function object on the heap: `none` is the null pointer, `some obj` the address of the object.
-/

namespace LibVsf

open Std

/-! ## Options -/

/-- `enum class Option`. -/
inductive OptionId where
  | hsNodeCpu | hsTotalMemSize | hsNodeSysDist | hsNodeTestDist | hsCpuUsage | hsUsedMemSize
  | separatorForHsAndVm
  | vmVnode | vmMemPolicy | vmBase | vmCpuBindinfo | vmMemBindinfo | vmCpuUsage | vmCacheMiss
  | vmMemSample | vmUsedMemSize
deriving DecidableEq, Repr, Inhabited

/-- `enum class OptionParam`. -/
inductive OptionParam where
  | path | sizeInMb | workloadType | loop | vmCmd | loopInterval | sampleInterval | callback
deriving DecidableEq, Repr, Inhabited

/-! Enumerators are compared by their values, which are their positions. -/

instance : Ord OptionId := ⟨fun o o' => compare o.ctorIdx o'.ctorIdx⟩

instance : TransOrd OptionId := inferInstanceAs (TransCmp (compareOn OptionId.ctorIdx))

instance : LawfulEqOrd OptionId where
  compare_self {o} := by cases o <;> rfl
  eq_of_compare {o o'} h := by cases o <;> cases o' <;> first | rfl | exact absurd h (by decide)

instance : Ord OptionParam := ⟨fun p p' => compare p.ctorIdx p'.ctorIdx⟩

instance : TransOrd OptionParam := inferInstanceAs (TransCmp (compareOn OptionParam.ctorIdx))

instance : LawfulEqOrd OptionParam where
  compare_self {p} := by cases p <;> rfl
  eq_of_compare {p p'} h := by cases p <;> cases p' <;> first | rfl | exact absurd h (by decide)

/-- `op > SEPARATOR_FOR_HS_AND_VM`: the options the framework hands to `VmSet`; it hands the
others to `Host`. -/
def OptionId.isVm (o : OptionId) : Bool := OptionId.separatorForHsAndVm.ctorIdx < o.ctorIdx

/-! ## Parameter values -/

/-- `class OptionParamVal`. -/
inductive OptionParamVal where
  | str (sval : String)
  | char (cval : Char)
  | int (ival : Int)
  | dbl (dval : ℚ)
  | ptr (pval : Option Nat)
deriving DecidableEq, Repr

namespace OptionParamVal

def getString : OptionParamVal → String
  | str sval => sval
  | _ => ""

def getChar : OptionParamVal → Char
  | char cval => cval
  | _ => Char.ofNat 0

def getInt : OptionParamVal → Int
  | int ival => ival
  | _ => 0

def getDouble : OptionParamVal → ℚ
  | dbl dval => dval
  | _ => 0

def getPointer : OptionParamVal → Option Nat
  | ptr pval => pval
  | _ => none

end OptionParamVal

/-- `std::map<OptionParam, OptionParamVal>`. -/
abbrev Params := ExtTreeMap OptionParam OptionParamVal

/-- `std::map<Option, std::map<OptionParam, OptionParamVal>>`. -/
abbrev Options := ExtTreeMap OptionId Params

/-! The maps an initializer list builds. -/

def Params.of (l : List (OptionParam × OptionParamVal)) : Params := ExtTreeMap.ofList l

def Options.of (l : List (OptionId × Params)) : Options := ExtTreeMap.ofList l

/-! ## The store -/

structure FuncOption where
  options : Options := ∅

namespace FuncOption

/-- Each option's record is replaced as a whole. -/
def enableOption (s : FuncOption) (ops : Options) : FuncOption :=
  ⟨s.options.insertMany ops.toList⟩

def disableOption (s : FuncOption) (ops : List OptionId) : FuncOption :=
  ⟨ops.foldl (fun options op => options.erase op) s.options⟩

def checkOption (s : FuncOption) (op : OptionId) : Bool := s.options.contains op

/-- `get_param` returns a reference to `options_[op]`. The `operator[]` would insert an empty
record for an option that is not enabled; every caller has checked that it is. -/
def getParam (s : FuncOption) (op : OptionId) : Params := s.options.getD op ∅

@[simp] theorem enableOption_getElem? (s : FuncOption) (ops : Options) (o : OptionId) :
    (s.enableOption ops).options[o]? = ops[o]?.or s.options[o]? :=
  Maps.getElem?_insertMany_toList s.options ops o

theorem checkOption_eq (s : FuncOption) (o : OptionId) :
    s.checkOption o = s.options[o]?.isSome :=
  ExtTreeMap.contains_eq_isSome_getElem?

theorem getParam_eq (s : FuncOption) (o : OptionId) : s.getParam o = s.options[o]?.getD ∅ :=
  ExtTreeMap.getD_eq_getD_getElem?

end FuncOption

end LibVsf
