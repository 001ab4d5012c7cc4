/-
# The depth limit setting

How deep evaluation may nest is a setting outside the program. Unset or blank, it
has a default; a number of at most zero switches the limit off; anything that is
not a number is refused.
-/

import ContextLisp.Error
import ContextLisp.Text.Blank

namespace ContextLisp

/-- The integer that a setting holds, or a default if it is unset or blank. -/
def integerSetting (name : String) (fallback : Int) : Option String → Except Error Int
  | none => .ok fallback
  | some raw =>
    match Text.strip Text.isBlank raw.toList with
    | [] => .ok fallback
    | cs =>
      match Numeral.read? cs with
      | some n => .ok n
      | none => Error.fail (.badSetting name raw)

namespace DepthLimit

/-- The name of the setting. -/
def settingName : String := "JOLISP_MAX_DEPTH"

/-- The limit when none is set. -/
def standard : Int := 150

/-- The limit that the setting asks for; `none` when it is switched off. -/
def ofSetting (raw : Option String) : Except Error (Option Int) :=
  (integerSetting settingName standard raw).map fun n => if 0 < n then some n else none

end DepthLimit

end ContextLisp
