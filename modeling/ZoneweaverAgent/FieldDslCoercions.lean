import ZoneweaverAgent.FieldDslValidate
import ZoneweaverAgent.NumberPrinting

/-!
# The conversions of the field language

`Number` and `String` as the built-in functions compute them for what a field can hold. A list is
converted through the texts of its entries with commas between them, among which a null is empty.
-/

namespace ZoneweaverAgent.FieldDsl

open Doubles NumberTexts PathScan TextLines

section Conversions

def nullText : Text := ['n', 'u', 'l', 'l']

def objectText : Text := "[object Object]".toList

def isNull : Json → Bool
  | .null => true
  | _ => false

mutual

/-- `String(value)` -/
def valueText : Json → Text
  | .null => nullText
  | .bool true => ['t', 'r', 'u', 'e']
  | .bool false => ['f', 'a', 'l', 's', 'e']
  | .num q => numberText q
  | .str s => s.toList
  | .arr items => [','].intercalate (entryTexts items)
  | .obj _ => objectText

def entryTexts : List Json → List Text
  | [] => []
  | v :: rest => (if isNull v then [] else valueText v) :: entryTexts rest

end

/-- `Number(value)`, nothing for `NaN`. -/
def valueNumber : Json → Option Extended
  | .null => some (finite 0)
  | .bool b => some (finite (if b then 1 else 0))
  | .num q => some (finite q)
  | v => NumberTexts.number (valueText v)

/-- What a property of the object prototype is converted to. -/
def inheritedText (key : String) : String :=
  if key = "__proto__" then "[object Object]"
  else if key = "constructor" then "function Object() \x7b [native code] \x7d"
  else "function " ++ key ++ "() \x7b [native code] \x7d"

def conversions : Coercions where
  number
    | .value v => valueNumber v
    | _ => none
  text
    | .undefined => "undefined"
    | .inherited key => inheritedText key
    | .value v => String.ofList (valueText v)

end Conversions

end ZoneweaverAgent.FieldDsl
