/-
# Layout styles

A style says how wide and how deep a layout may be, and which kinds of values it
colours. Styles come from settings, which are fields of any type: a bound that is
not a number is kept as such and refused where it is compared, and a colour is on
if its setting counts as true. A missing setting has its default.
-/

import ContextLisp.Layout.Json

namespace ContextLisp

/-- A number that bounds a layout. -/
inductive Bound where
  | int (n : Int)
  | real (r : Binary64)
  deriving DecidableEq, Repr

namespace Bound

/-- Whether an integer has reached a bound. -/
def reachedBy (n : Int) : Bound → Bool
  | .int bound => bound ≤ n
  | .real r => r.atMost n

/-- Whether an integer keeps within a bound. -/
def admits (n : Int) : Bound → Bool
  | .int bound => n ≤ bound
  | .real r => r.atLeast n

end Bound

/-- The number that a JSON value counts as; a boolean counts as zero or one. -/
def Json.bound? : Json → Option Bound
  | .int n => some (.int n)
  | .bool b => some (.int (if b then 1 else 0))
  | .real r => some (.real r)
  | _ => none

/-- How values are laid out. A bound of `none` was given as something other than
a number. -/
structure Style where
  maxLineLength : Option Bound
  maxDepth : Option Bound
  colorSymbols : Bool
  colorKeywords : Bool
  colorFunctions : Bool
  colorExpanders : Bool
  colorPrimitives : Bool
  colorSpecialForms : Bool
  deriving DecidableEq, Repr

/-- Layout settings by name. -/
abbrev Settings := List (String × Json)

namespace Settings

/-- The value of a setting. -/
def get? (name : String) : Settings → Option Json
  | [] => none
  | (key, v) :: rest => if key = name then some v else get? name rest

/-- Settings with others put over them. -/
def override (base changes : Settings) : Settings :=
  changes.foldl (fun settings (name, v) => Json.setField name v settings) base

/-- Every setting with its default. -/
def standard : Settings :=
  [("max_line_length", .int 80), ("max_depth", .int 5), ("color_symbols", .bool true),
   ("color_keywords", .bool true), ("color_functions", .bool true),
   ("color_macros", .bool true), ("color_callables", .bool true),
   ("color_special_forms", .bool true)]

/-- The defaults with all colours off. -/
def plain : Settings :=
  standard.map fun (name, v) => if "color_".isPrefixOf name then (name, .bool false) else (name, v)

/-- A bound among the settings. -/
def bound (settings : Settings) (name : String) (fallback : Int) : Option Bound :=
  ((settings.get? name).map Json.bound?).getD (some (.int fallback))

/-- A colour switch among the settings. -/
def switch (settings : Settings) (name : String) : Bool :=
  ((settings.get? name).map Json.isTruthy).getD true

/-- The style that settings describe. -/
def style (settings : Settings) : Style where
  maxLineLength := settings.bound "max_line_length" 80
  maxDepth := settings.bound "max_depth" 5
  colorSymbols := settings.switch "color_symbols"
  colorKeywords := settings.switch "color_keywords"
  colorFunctions := settings.switch "color_functions"
  colorExpanders := settings.switch "color_macros"
  colorPrimitives := settings.switch "color_callables"
  colorSpecialForms := settings.switch "color_special_forms"

/-- Settings written as JSON, over the defaults. Malformed text leaves the
defaults; a value other than an object is refused. -/
def ofJson (text : String) : Except Error Settings :=
  match Json.parse text with
  | .ok (.object fields) => .ok (standard.override fields)
  | .ok _ => .error .notAnObject
  | .error .malformed => .ok standard
  | .error .numeral => .error .numeral
  | .error .tooDeep => .error .stackOverflow

end Settings

namespace Style

/-- The style of the defaults. -/
def standard : Style := Settings.standard.style

/-- The style of the defaults with all colours off. -/
def plain : Style := Settings.plain.style

end Style

end ContextLisp
