import ShaderInterface.Screen.Basic

/-!
# The colours of the browser
-/
namespace ShaderInterface.Palette

def plain : Colour := .rgb 205 214 244
def primary : Colour := .rgb 137 180 250
def comment : Colour := .rgb 108 112 134
def success : Colour := .rgb 166 227 161
def error : Colour := .rgb 243 139 168
def keyword : Colour := .rgb 137 180 250
def number : Colour := .rgb 250 179 135
def borderFocused : Colour := .rgb 249 226 175
def borderNormal : Colour := .rgb 108 112 134
def statusBackground : Colour := .rgb 50 50 70
def typeName : Colour := .rgb 148 226 213
def semantic : Colour := .rgb 245 194 231
def padding : Colour := .rgb 180 165 120

/-- Text of a colour on the terminal's own background. -/
def ink (colour : Colour) : Style := { foreground := colour }

/-- Bold text of a colour. -/
def boldInk (colour : Colour) : Style := { foreground := colour, bold := true }

/-- The border of a pane. -/
def border (focused : Bool) : Style := if focused then boldInk borderFocused else ink borderNormal

end ShaderInterface.Palette
