/-
This file cuts texts at a mark.
-/

namespace EstreeScopes.Text

/-- What stands between the marks of a text. A text without marks is one piece. -/
def pieces (mark : Char) : List Char → List (List Char)
  | [] => [[]]
  | char :: rest =>
    if char = mark then [] :: pieces mark rest
    else
      match pieces mark rest with
      | [] => [[char]]
      | first :: others => (char :: first) :: others

end EstreeScopes.Text
