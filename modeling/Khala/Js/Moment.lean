import Mathlib.Algebra.Order.Floor.Defs
import Mathlib.Data.Rat.Floor
import Khala.Js.Date

/-! Numbers that stand for times, as the runtime compares them. -/

namespace Js

/-- A number in milliseconds; it may be infinite or not a number. -/
inductive Moment
  | nan
  | minusInfinity
  | finite (ms : ℚ)
  | infinity
deriving DecidableEq

namespace Moment

/-- `<=`; nothing compares with what is not a number. -/
def le : Moment → Moment → Bool
  | nan, _ => false
  | _, nan => false
  | minusInfinity, _ => true
  | _, infinity => true
  | finite ms, finite ms' => ms ≤ ms'
  | _, _ => false

/-- `<`. -/
def lt (a b : Moment) : Bool := a.le b && a != b

def isFinite : Moment → Bool
  | finite _ => true
  | _ => false

/-- The number after it was written to a file and read again. -/
def written : Moment → Moment
  | finite ms => finite ms
  | _ => nan

/-- `new Date(ms).toISOString()`, which has no text for a time that is out of range. -/
def toISOString : Moment → Option Text
  | finite ms =>
    let whole := if 0 ≤ ms then ⌊ms⌋ else ⌈ms⌉
    if whole.natAbs ≤ 8640000000000000 then some (Js.toISOString whole) else none
  | _ => none

end Moment

end Js
