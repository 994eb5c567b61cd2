/-!
# Looking things up in a sequence

Texts and token lists are looked up by the number of a place. Places count from the start; negative
ones count from the end, the last item being number minus one.
-/

namespace RegisterLang.Sequence

variable {α : Type}

/-- The item at a place of a sequence. Behind the sequence there is `beyond`, in front of it there
is nothing. -/
def at? (items : List α) (place : Int) (beyond : α) : Option α :=
  if 0 ≤ place then some (items.getD place.toNat beyond)
  else if -place ≤ items.length then items[(items.length + place).toNat]?
  else none

end RegisterLang.Sequence
