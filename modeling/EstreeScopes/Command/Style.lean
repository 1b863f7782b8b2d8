/-
This file gives the styles of text on a terminal. A styled text is opened by the
code of its style and closed by a reset. A reset inside the text would close the
style early, so the style is opened again after each.
-/

namespace EstreeScopes.Command

/-- How a piece of text stands out. -/
inductive Style where
  | alarm
  | strong
  | accent
  | faint
  | good
  | slanted
  | red
  | yellow
  | blue
  | purple
deriving DecidableEq

namespace Style

/-- The code of a style on a terminal. -/
def code : Style → String
  | .alarm => "1;33"
  | .strong => "1"
  | .accent => "36"
  | .faint => "2"
  | .good => "32"
  | .slanted => "3"
  | .red => "31"
  | .yellow => "33"
  | .blue => "34"
  | .purple => "35"

/-- What opens a style. -/
def opening (style : Style) : List Char :=
  '\x1b' :: '[' :: (style.code.toList ++ ['m'])

/-- What closes every style. -/
def reset : List Char := ['\x1b', '[', '0', 'm']

/-- A text with something after every reset in it. -/
def afterResets (added : List Char) : List Char → List Char
  | '\x1b' :: '[' :: '0' :: 'm' :: rest => reset ++ added ++ afterResets added rest
  | char :: rest => char :: afterResets added rest
  | [] => []

/-- A text in a style, if colours are wanted. -/
def paint (colored : Bool) (style : Style) (text : String) : String :=
  if colored then
    String.ofList (style.opening ++ afterResets style.opening text.toList ++ reset)
  else text

end Style

end EstreeScopes.Command
