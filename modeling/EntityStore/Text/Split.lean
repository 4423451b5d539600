/-
  EntityStore/Text/Split.lean
  ===========================
  **Splitting** — the pieces of a text between the occurrences of a character.
-/

namespace EntityStore.Text

/-- The pieces between separators; always at least one, and the separators are
    one fewer than the pieces. -/
def splitOn (separator : Char) : List Char → List (List Char)
  | [] => [[]]
  | c :: rest =>
    if c = separator then [] :: splitOn separator rest
    else
      match splitOn separator rest with
      | [] => [[c]]
      | piece :: more => (c :: piece) :: more

/-- The text before the first separator and the text behind it, if there is one. -/
def splitOnce (separator : Char) : List Char → Option (List Char × List Char)
  | [] => none
  | c :: rest =>
    if c = separator then some ([], rest)
    else (splitOnce separator rest).map fun (before, behind) => (c :: before, behind)

end EntityStore.Text
