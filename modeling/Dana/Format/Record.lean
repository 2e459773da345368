import Dana.Json.Basic

/-!
# Reading records and tagged values

The conventions by which nodes are written as JSON values.

* A record is an object with its fields as members, in any order and among
  others, or an array of its fields in their order. A field may have a default,
  for when it is missing; an optional field may be missing from an object, but
  not from an array.
* A tagged value is an object with the tag as its only member and the payload
  as that member's value. A tag without a payload may stand alone as a string.

A reader takes the number of arrays and objects that may still be opened
(`room`), so that it can bound how deep it follows a value.

Of several faults in a value the first in its text counts. Fields are read
independently of each other, so each fault carries the position of its member.
-/

namespace Dana

/-- Why a value is not the node it is read as. -/
inductive DecodeError
  /-- It does not have the form of the node. -/
  | form
  /-- No operator is written like this. -/
  | unknownOperator (symbol : String)
deriving DecidableEq, Repr, Inhabited

abbrev Decoded (α : Type) := Except DecodeError α

namespace Json

variable {α : Type}

/-! ## Plain values -/

def text : Json → Decoded String
  | .str s => .ok s
  | _ => .error .form

def flag : Json → Decoded Bool
  | .bool b => .ok b
  | _ => .error .form

def word : Json → Decoded UInt32
  | .int n => if 0 ≤ n ∧ n ≤ 4294967295 then .ok (UInt32.ofNat n.toNat) else .error .form
  | _ => .error .form

def signedWord : Json → Decoded Int32
  | .int n => if -2147483648 ≤ n ∧ n ≤ 2147483647 then .ok (Int32.ofInt n) else .error .form
  | _ => .error .form

/-- A value that may be absent. -/
def nullable (read : Json → Decoded α) : Json → Decoded (Option α)
  | .null => .ok none
  | j => some <$> read j

/-- The items of an array, each read by itself. -/
def items (read : Json → Decoded α) : Json → Decoded (List α)
  | .arr js => js.mapM read
  | _ => .error .form

def list (read : Nat → Json → Decoded α) : (room : Nat) → Json → Decoded (List α)
  | 0, _ => .error .form
  | room + 1, j => items (read room) j

/-! ## Tagged values -/

/-- Reads a tag that stands alone by `bare`, and one with a payload by `held`. -/
def tagged (bare : String → Decoded α) (held : String → Json → Decoded α) : Json → Decoded α
  | .str tag => bare tag
  | .obj ((tag, payload) :: others) => do
    let a ← held tag payload
    if others.isEmpty then .ok a else .error .form
  | _ => .error .form

/-- A tag that never has a payload: alone, or with `null` for one. -/
def named (read : String → Option α) : (room : Nat) → Json → Decoded α
  | 0, j => j.tagged bare fun _ _ => .error .form
  | _ + 1, j => j.tagged bare fun
    | tag, .null => bare tag
    | _, _ => .error .form
where
  bare (tag : String) : Decoded α :=
    match read tag with
    | some a => .ok a
    | none => .error .form

end Json

/-! ## Records -/

/-- A field that was read, or a fault and the position of the member it is at. -/
def Field (α : Type) := Except (Nat × DecodeError) α

namespace Field

variable {α β : Type}

/-- Of two faults the one that stands first. -/
def earlier (e f : Nat × DecodeError) : Nat × DecodeError :=
  if f.1 < e.1 then f else e

def apply : Field (α → β) → Field α → Field β
  | .ok f, .ok a => .ok (f a)
  | .ok _, .error e => .error e
  | .error e, .ok _ => .error e
  | .error e, .error f => .error (earlier e f)

instance : Applicative Field where
  pure a := .ok a
  seq f a := apply f (a ())

/-- A field read from the member at position `i`. -/
def ofMember (i : Nat) : Decoded α → Field α
  | .ok a => .ok a
  | .error e => .error (i, e)

end Field

/-- The fields of a record as they stand in a value. -/
structure Record where
  members : List (String × Json)
  /-- Whether the record was written as an array. -/
  positional : Bool
  /-- Where a field stands twice, or an item too much. -/
  excess : Option Nat

namespace Record

variable {α : Type}

/-- The first member called `name`, and its position. -/
def locate (name : String) : List (String × Json) → Option (Nat × Json)
  | [] => none
  | (key, j) :: ms => if key = name then some (0, j) else (locate name ms).map fun (i, j) => (i + 1, j)

/-- Where a member is called like one before it, for names in `names`. -/
def firstRepeat (names seen : List String) : List (String × Json) → Option Nat
  | [] => none
  | (key, _) :: ms =>
    if key ∈ names ∧ key ∈ seen then some 0 else (firstRepeat names (key :: seen) ms).map (· + 1)

/-- A value as a record of the fields `names`. -/
def ofJson? (names : List String) : Json → Option Record
  | .obj members => some ⟨members, false, firstRepeat names [] members⟩
  | .arr items =>
    some ⟨names.zip items, true, if names.length < items.length then some names.length else none⟩
  | _ => none

/-- A missing field is a fault after all members. -/
def missing (r : Record) : Field α :=
  .error (r.members.length, .form)

def required (r : Record) (name : String) (read : Json → Decoded α) : Field α :=
  match locate name r.members with
  | some (i, j) => .ofMember i (read j)
  | none => r.missing

def defaulted (r : Record) (name : String) (default : α) (read : Json → Decoded α) : Field α :=
  match locate name r.members with
  | some (i, j) => .ofMember i (read j)
  | none => .ok default

def optional (r : Record) (name : String) (read : Json → Decoded α) : Field (Option α) :=
  match locate name r.members with
  | some (i, j) => .ofMember i (j.nullable read)
  | none => if r.positional then r.missing else .ok none

/-- What was built of the fields, unless a fault stands in the record. -/
def finish (r : Record) : Field α → Decoded α
  | .ok a => if r.excess.isSome then .error .form else .ok a
  | .error (i, e) =>
    match r.excess with
    | some k => .error (if i < k then e else .form)
    | none => .error e

end Record

/-- Reads a value as a record of the fields `names`. -/
def Json.record {α : Type} (names : List String) (build : Record → Field α) (j : Json) : Decoded α :=
  match Record.ofJson? names j with
  | some r => r.finish (build r)
  | none => .error .form

end Dana
