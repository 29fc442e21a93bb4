import BulkLookup.Text.Quoted
import BulkLookup.Decimal.Text

/-!
# Descriptions

A description is the one-line text under which a value is shown to somebody who inspects it.
Numbers are shown in decimal, strings quoted, an optional value as `Some(…)` or `None`, a list in
square brackets, and a record by its name and its fields.

## Main definitions

* `Described` — the class of values with a description
* `record`, `application` — the description of a record, and of a name applied to values
-/

namespace BulkLookup

universe u

/-- Values that can be shown. -/
class Described (α : Type u) where
  describe : α → String

export Described (describe)

/-- A record: its name and, in braces, the name and the text of each field. -/
def record (name : String) (fields : List (String × String)) : String :=
  name ++ " \x7b " ++ ", ".intercalate (fields.map fun (field, text) => field ++ ": " ++ text)
    ++ " \x7d"

/-- A name applied to values, given by their texts. -/
def application (name : String) (texts : List String) : String :=
  name ++ "(" ++ ", ".intercalate texts ++ ")"

instance : Described Nat := ⟨fun n => toString n⟩

instance : Described UInt64 := ⟨fun n => toString n.toNat⟩

instance : Described Int64 := ⟨fun i => toString i.toInt⟩

instance : Described String := ⟨Quoted.quote⟩

instance : Described Float := ⟨numberText⟩

instance : Described Bool := ⟨fun b => if b then "true" else "false"⟩

instance {α : Type u} [Described α] : Described (Option α) where
  describe
    | none => "None"
    | some a => application "Some" [describe a]

instance {α : Type u} [Described α] : Described (List α) where
  describe l := "[" ++ ", ".intercalate (l.map describe) ++ "]"

end BulkLookup
