import Markup.Json.Number

/-!
# JSON values

A JSON value with its object entries in the order they were written. Reading an object
that repeats a key keeps the key where it first stood and gives it the last value
(`Json.insertEntry`).
-/

namespace Markup

/-- A JSON value; an object keeps its entries in order. -/
inductive Json where
  | null
  | bool (b : Bool)
  | number (n : Number)
  | string (s : String)
  | array (items : List Json)
  | object (entries : List (String × Json))

namespace Json

/-- Adds an entry to an object's entries: a new key goes last, a repeated key keeps its
place and takes the new value. -/
def insertEntry {α : Type} (entries : List (String × α)) (key : String) (v : α) :
    List (String × α) :=
  if entries.any (·.1 == key) then
    entries.map fun e => if e.1 == key then (key, v) else e
  else entries ++ [(key, v)]

/-- The value of a key of an object's entries. -/
def lookup {α : Type} (entries : List (String × α)) (key : String) : Option α :=
  (entries.find? (·.1 == key)).map (·.2)

end Json

end Markup
