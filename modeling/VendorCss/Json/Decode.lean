import VendorCss.Json

/-!
# Decoding records

A record is written as an object, whose unknown members do not matter and whose known ones are there once, or as an
array of its fields in order, which may stop early but not go on after the last one. A field that is not written is
decoded from nothing: what that means, the field decides. A dictionary is written as an object with any keys.
-/

namespace VendorCss.Json

/-- The string. -/
def text? : Json → Option Text
  | string t => some t
  | _ => none

/-- The truth value. -/
def bool? : Json → Option Bool
  | bool b => some b
  | _ => none

/-- The elements of an array. -/
def elements? : Json → Option (List Json)
  | array es => some es
  | _ => none

/-- The strings of an array of strings. -/
def texts? (j : Json) : Option (List Text) := do (← j.elements?).mapM text?

/-- The members of an object. -/
def members? : Json → Option (List (Text × Json))
  | object ms => some ms
  | _ => none

/-- The fields of a record, in the order of `names`. -/
def fields? (names : List Text) : Json → Option (List (Option Json))
  | object ms =>
    names.mapM fun name =>
      match ms.filter (fun (k, _) => k == name) with
      | [] => some none
      | [(_, j)] => some (some j)
      | _ => none
  | array es =>
    if es.length ≤ names.length then some (es.map some ++ List.replicate (names.length - es.length) none) else none
  | _ => none

/-- A field that has to be written. -/
def required (decode : Json → Option α) (field : Option Json) : Option α := field.bind decode

/-- A field with a default. -/
def withDefault (default : α) (decode : Json → Option α) : Option Json → Option α
  | some j => decode j
  | none => some default

/-- A value that may be `null`. -/
def nullable (decode : Json → Option α) : Json → Option (Option α)
  | null => some none
  | j => (decode j).map some

/-- Pairs with one key reduced to the last of them, at the place of the first. -/
def lastMembers (ms : List (Text × α)) : List (Text × α) :=
  ms.foldl (fun kept (k, x) =>
    if kept.any (fun (k', _) => k' == k) then kept.map fun (k', x') => if k' == k then (k, x) else (k', x')
    else kept ++ [(k, x)]) []

/-- The entries of a dictionary. Every member has to decode, also one that a later member of its key replaces. -/
def entries? (decode : (key : Text) → Json → Option α) (j : Json) : Option (List (Text × α)) := do
  let entries ← (← j.members?).mapM fun (k, v) => (decode k v).map (k, ·)
  pure (lastMembers entries)

mutual

/-- The value with no key twice in an object: the member written last counts. -/
def collapse : Json → Json
  | array es => array (collapseElements es)
  | object ms => object (lastMembers (collapseMembers ms))
  | j => j

def collapseElements : List Json → List Json
  | [] => []
  | j :: js => collapse j :: collapseElements js

def collapseMembers : List (Text × Json) → List (Text × Json)
  | [] => []
  | (k, j) :: ms => (k, collapse j) :: collapseMembers ms

end

end VendorCss.Json
