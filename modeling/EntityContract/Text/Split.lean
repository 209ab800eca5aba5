/-!
Cutting a text at every occurrence of a character.
-/

namespace EntityContract.Text

/-- The pieces between the occurrences of a character: one more than there are occurrences. -/
def split (separator : Char) : List Char → List (List Char)
  | [] => [[]]
  | c :: rest =>
    match split separator rest with
    | [] => [[]]
    | piece :: pieces => if c = separator then [] :: piece :: pieces else (c :: piece) :: pieces

end EntityContract.Text
