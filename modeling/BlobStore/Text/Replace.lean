/-!
# Replacing a piece of text

`replace` puts one text in the place of another wherever that occurs, from left to
right.  Occurrences that would overlap one already replaced do not count.
-/

namespace BlobStore.Text

variable {α : Type} [DecidableEq α]

/-- Puts a text in the place of every occurrence of another; an empty one occurs
nowhere. -/
def replace (old new : List α) : List α → List α
  | [] => []
  | c :: cs =>
    if old ≠ [] ∧ old.isPrefixOf (c :: cs) then
      new ++ replace old new (cs.drop (old.length - 1))
    else c :: replace old new cs
termination_by cs => cs.length
decreasing_by all_goals simp only [List.length_drop, List.length_cons]; omega

end BlobStore.Text
