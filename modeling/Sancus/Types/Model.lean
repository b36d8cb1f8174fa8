import Sancus.CModel.Integer
import Sancus.CModel.Strto

namespace Sancus.Types

open CModel

/-!
# Types — numeric conversions that report whether they succeed

The functions are instances of macros, for a type they convert from and one they convert to.  Each
returns whether it has succeeded, and stores through a pointer that may be null.

* `getConverted`, `getNumericGeleCast` — a value within bounds, cast;
* `getStrto` — a string as a number;
* `getGeleStrto`, `getGeleStrtoK` — a string as a number within bounds.
-/

variable {T0 T1 : IntType}

/-- What `out` points to, unless it is null. -/
abbrev Cell (T : IntType) : Type := Option T.Value

/-- `if (out != NULL) *out = v` -/
def store {T : IntType} (out : Cell T) (v : T.Value) : Cell T := out.map fun _ => v

/-! ### The macros -/

/-- `DECL_SANCUS_GET_CONVERTED`, without the variant that asserts the test. -/
def getConverted (test : Bool) (fn : T1.Value) (out : Cell T1) : Bool × Cell T1 :=
  if test then (true, store out fn) else (false, out)

/-- `DECL_SANCUS_NUMERIC_CMP2_CAST` -/
def getNumericCmp2Cast (T0 T1 : IntType) (ca cb : Int → Int → Bool) (v a b : T0.Value)
    (out : Cell T1) : Bool × Cell T1 :=
  getConverted (ca v a && cb v b) (T1.conv v) out

/-- `DECL_SANCUS_NUMERIC_GELE_CAST` -/
def getNumericGeleCast (T0 T1 : IntType) : (v a b : T0.Value) → Cell T1 → Bool × Cell T1 :=
  getNumericCmp2Cast T0 T1 (· ≥ ·) (· ≤ ·)

/-- `DECL_SANCUS_STRTO`, for a function `f` that always sets `end`. -/
def getStrto (f : CString → T0.Value × Nat) (s : Option CString) (out : Cell T0) :
    Bool × Cell T0 :=
  match s with
  | none => (false, store out (T0.conv 0))
  | some s =>
    if s.byte 0 ≠ 0 then (s.byte (f s).2 = 0, store out (f s).1)
    else (false, store out (T0.conv 0))

/-- `DECL_SANCUS_GELE_STRTO` -/
def getGeleStrto (f0 : Option CString → Cell T0 → Bool × Cell T0)
    (f1 : (v a b : T0.Value) → Cell T1 → Bool × Cell T1) (s : Option CString) (a b : T0.Value)
    (out : Cell T1) : Bool × Cell T1 :=
  -- `v` is not initialised, but `f0` stores in any case.
  match f0 s (some (T0.conv 0)) with
  | (true, some v) => f1 v a b out
  | _              => (false, out)

/-- `DECL_SANCUS_GELE_STRTO_K` -/
def getGeleStrtoK (f0 : Option CString → Cell T0 → Bool × Cell T0) (a b : Int)
    (s : Option CString) (out : Cell T1) : Bool × Cell T1 :=
  match f0 s (some (T0.conv 0)) with
  | (true, some v) => if v ≥ a ∧ v ≤ b then (true, store out (T1.conv v)) else (false, out)
  | _              => (false, out)

/-! ### String to numeric -/

def sancusGetLs := getStrto strtol
def sancusGetLls := getStrto strtoll
def sancusGetUls := getStrto strtoul
def sancusGetUlls := getStrto strtoull

/-! ### Value within range as unsigned -/

def sancusGetUrll := getNumericGeleCast .longLong .unsignedInt
def sancusGetUrzu := getNumericGeleCast .sizeT .unsignedInt
def sancusGetUrzd := getNumericGeleCast .ssizeT .unsignedInt
def sancusGetUrlls := getGeleStrto sancusGetLls sancusGetUrll

/-! ### Value within range as int -/

def sancusGetDrl := getNumericGeleCast .long .int
def sancusGetDrll := getNumericGeleCast .longLong .int
def sancusGetDrzu := getNumericGeleCast .sizeT .int
def sancusGetDrzd := getNumericGeleCast .ssizeT .int
def sancusGetDrls := getGeleStrto sancusGetLs sancusGetDrl
def sancusGetDrlls := getGeleStrto sancusGetLls sancusGetDrll
def sancusGetDs : Option CString → Cell .int → Bool × Cell .int :=
  getGeleStrtoK sancusGetLs INT_MIN INT_MAX

end Sancus.Types
