import LineScript.Tool.Screen

/-!
# Units

Lengths and weights are converted by factors, temperatures by formulas.
-/

namespace LineScript.Tool

open Text

inductive Conversion where
  | factor (k : Float)
  | toFahrenheit
  | toCelsius

def Conversion.apply (x : Float) : Conversion → Float
  | .factor k => x * k
  | .toFahrenheit => x * 9.0 / 5.0 + 32.0
  | .toCelsius => (x - 32.0) * 5.0 / 9.0

def conversions : List ((String × String) × Conversion) :=
  [(("km", "miles"), .factor 0.621371),
   (("km", "m"), .factor 1000.0),
   (("km", "ft"), .factor 3280.84),
   (("miles", "km"), .factor 1.60934),
   (("miles", "m"), .factor 1609.34),
   (("miles", "ft"), .factor 5280.0),
   (("m", "km"), .factor 0.001),
   (("m", "miles"), .factor 0.000621371),
   (("m", "ft"), .factor 3.28084),
   (("ft", "m"), .factor 0.3048),
   (("ft", "km"), .factor 0.0003048),
   (("ft", "miles"), .factor 0.000189394),
   (("°c", "°f"), .toFahrenheit),
   (("°f", "°c"), .toCelsius),
   (("kg", "lbs"), .factor 2.20462),
   (("lbs", "kg"), .factor 0.453592)]

/-- A unit in small letters, with the sign of degrees on temperatures and nowhere else. -/
def unitName (s : String) : String :=
  let plain := String.ofList (replace ['°'] [] (lower s.toList))
  if plain = "c" || plain = "f" then "°" ++ plain else plain

def twoPlaces (x : Float) : String :=
  let body := if x.isNaN then "nan".toList else if x.isInf then "inf".toList else Number.fixedDigits x 2
  String.ofList (if Number.signBit x && !x.isNaN then '-' :: body else body)

def unitHelp : List String :=
  ["Supported units:", "Length: km, miles, m, ft", "Temperature: c/f or °C/°F", "Weight: kg, lbs"]

def convertUnits : Act Unit := do
  heading "UNIT CONVERTER"
  unitHelp.forM Act.say
  match Number.readFloat (← Act.ask "Value: ").toList with
  | none => Act.say "! Invalid input"
  | some x =>
    let source := unitName (← Act.ask "From unit: ")
    let target := unitName (← Act.ask "To unit: ")
    match conversions.lookup (source, target) with
    | some c =>
      Act.say ("\n" ++ Value.floatString x ++ " " ++ source ++ " = " ++ twoPlaces (c.apply x) ++ " " ++ target)
    | none => Act.say "! Unsupported conversion"

end LineScript.Tool
