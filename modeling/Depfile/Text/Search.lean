import Depfile.Text.Blank

/-!
# Searching text

A text occurs in another one if it starts at some position of it. The search is used to
leave early when a base directory is not mentioned anywhere in a file.
-/

namespace Depfile.Text

/-- Does `needle` occur somewhere in the text? The empty text occurs in every text. -/
def occurs (needle : Text) : Text → Bool
  | [] => needle.isEmpty
  | c :: rest => needle.isPrefixOf (c :: rest) || occurs needle rest

end Depfile.Text
