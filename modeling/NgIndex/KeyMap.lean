/-!
# Maps in the order of their keys

A map from texts to values, kept as a list in ascending order of the keys.  The order of texts is
that of their characters.
-/

namespace NgIndex

/-- A map from texts to values, in ascending order of the keys. -/
structure KeyMap (α : Type) where
  entries : List (String × α) := []
  deriving Repr, Inhabited, DecidableEq

namespace KeyMap

variable {α : Type}

/-- Puts a value under a key in an ascending list, in the place of the one that is there. -/
def insertInto (key : String) (value : α) : List (String × α) → List (String × α)
  | [] => [(key, value)]
  | (other, old) :: rest =>
      if key == other then (key, value) :: rest
      else if key < other then (key, value) :: (other, old) :: rest
      else (other, old) :: insertInto key value rest

/-- Puts a value under a key, in the place of the one that is there. -/
def insert (map : KeyMap α) (key : String) (value : α) : KeyMap α :=
  ⟨insertInto key value map.entries⟩

/-- The map without a key. -/
def erase (map : KeyMap α) (key : String) : KeyMap α :=
  ⟨map.entries.filter fun entry => entry.1 != key⟩

/-- The value under a key. -/
def get? (map : KeyMap α) (key : String) : Option α :=
  (map.entries.find? fun entry => entry.1 == key).map Prod.snd

/-- Whether there is a value under a key. -/
def contains (map : KeyMap α) (key : String) : Bool :=
  map.entries.any fun entry => entry.1 == key

/-- The keys in ascending order. -/
def keys (map : KeyMap α) : List String :=
  map.entries.map Prod.fst

/-- The values in ascending order of their keys. -/
def values (map : KeyMap α) : List α :=
  map.entries.map Prod.snd

/-- The map of a list; of several values under one key the last counts. -/
def ofList (entries : List (String × α)) : KeyMap α :=
  entries.foldl (fun map entry => map.insert entry.1 entry.2) {}

/-- The map with all entries of another put into it. -/
def union (map other : KeyMap α) : KeyMap α :=
  other.entries.foldl (fun map entry => map.insert entry.1 entry.2) map

end KeyMap
end NgIndex
