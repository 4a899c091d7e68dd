set_option autoImplicit false

/-!
TOML items. A table remembers how it came to be, because that decides what may still be added to
it. A number may be spelled as a number and yet have no value; that is a fault only where someone
reads it.
-/
namespace FlowAudit.Toml

/-- How a table was first named. -/
inductive Origin where
  /-- By a header of its own, or as the whole document. -/
  | header
  /-- By a header of a table inside it. -/
  | implied
  /-- By a dotted key. -/
  | dotted
  /-- By braces, which close it for good. -/
  | inline
  deriving DecidableEq, Repr

/-- Dates and times keep their spelling only. -/
inductive Item where
  | text (value : String)
  | integer (value : Int)
  | float (value : Float)
  /-- A number without a value, such as one that is too large. -/
  | valueless
  | boolean (value : Bool)
  | moment (spelling : String)
  | array (items : List Item)
  | table (origin : Origin) (members : List (String × Item))
  /-- An array of tables, which headers in double brackets build. -/
  | tables (items : List (List (String × Item)))
  deriving Inhabited

abbrev Members := List (String × Item)

mutual

/-- Whether every number inside an item has a value. -/
def Item.hasValue : Item → Bool
  | .valueless => false
  | .array items => allHaveValues items
  | .table _ members => membersHaveValues members
  | .tables items => tablesHaveValues items
  | _ => true

def allHaveValues : List Item → Bool
  | [] => true
  | item :: items => item.hasValue && allHaveValues items

def membersHaveValues : List (String × Item) → Bool
  | [] => true
  | (_, item) :: members => item.hasValue && membersHaveValues members

def tablesHaveValues : List (List (String × Item)) → Bool
  | [] => true
  | members :: items => membersHaveValues members && tablesHaveValues items

end

end FlowAudit.Toml
