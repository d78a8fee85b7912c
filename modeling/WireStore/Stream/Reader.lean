import WireStore.Error
import WireStore.Stream.Source

/-!
# Reading in succession

A reader takes one thing off a source. `inTurn` lets readers follow one another,
each on what the one before it left, and lists each result together with the
source after it; `outcomes` does so with one reader again and again.
-/

namespace WireStore

/-- Takes one thing off a source, or fails; either way some source is left. -/
abbrev Reader (α : Type) := Source → Except Error α × Source

namespace Reader

/-- The results of some readers in turn, as long as `goesOn` holds of the last one. -/
def inTurn {α : Type} (goesOn : Except Error α → Bool) :
    List (Reader α) → Source → List (Except Error α × Source)
  | [], _ => []
  | reader :: readers, source =>
    let (result, rest) := reader source
    (result, rest) :: if goesOn result then inTurn goesOn readers rest else []

/-- The results of reading at most `count` times, as long as `goesOn` holds of the last one. -/
def outcomes {α : Type} (reader : Reader α) (goesOn : Except Error α → Bool) (count : Nat) :
    Source → List (Except Error α × Source) :=
  inTurn goesOn (List.replicate count reader)

end Reader

end WireStore
