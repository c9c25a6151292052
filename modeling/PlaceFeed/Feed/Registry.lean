import PlaceFeed.Venue

/-!
# Known places

A `PlaceId` is the name that a provider knows a place by; a venue with neither a provider nor an
identifier has none.  A `Registry` holds for every place the line of the first venue at it:
`Registry.note` changes nothing for a place that is already there.
-/

namespace PlaceFeed

/-- What a provider calls a place. -/
structure PlaceId where
  provider : Bytes
  id : Bytes
deriving DecidableEq

/-- The place that a venue is at, unless both parts of its name are empty. -/
def Venue.placeId? (v : Venue) : Option PlaceId :=
  if v.provider.isEmpty && v.id.isEmpty then none else some ⟨v.provider, v.id⟩

/-- Places with the line at which each was first met, the last one first. -/
structure Registry where
  entries : List (PlaceId × Nat)
deriving DecidableEq

namespace Registry

/-- No places. -/
def empty : Registry := ⟨[]⟩

/-- The line at which a place was first met. -/
def find? (r : Registry) (place : PlaceId) : Option Nat := r.entries.lookup place

/-- Adds a place that is met at a line, unless it is known. -/
def note (r : Registry) (place : PlaceId) (line : Nat) : Registry :=
  match r.find? place with
  | some _ => r
  | none => ⟨(place, line) :: r.entries⟩

theorem find?_empty (place : PlaceId) : empty.find? place = none := rfl

/-- After a place is noted it is known, by its first line. -/
theorem find?_note_self (r : Registry) (place : PlaceId) (line : Nat) :
    (r.note place line).find? place = some ((r.find? place).getD line) := by
  unfold note
  split
  · next h => rw [h]; rfl
  · next h => rw [h]; simp [find?]

/-- Noting a place changes nothing about another. -/
theorem find?_note_of_ne (r : Registry) {place other : PlaceId} (line : Nat) (h : other ≠ place) :
    (r.note place line).find? other = r.find? other := by
  unfold note
  split
  · rfl
  · simp [find?, List.lookup_cons, beq_false_of_ne h]

/-- The known places. -/
def places (r : Registry) : List PlaceId := r.entries.map (·.1)

/-- How many places are known. -/
def size (r : Registry) : Nat := r.entries.length

end Registry

end PlaceFeed
