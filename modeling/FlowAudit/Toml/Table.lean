import FlowAudit.Toml.Item

set_option autoImplicit false

/-!
Building tables. A key is set once; a header names a table once, unless an earlier header only
implied it; an inline table takes nothing more; and dotted keys extend only tables that dotted keys
made.
-/
namespace FlowAudit.Toml.Table

def replace (key : String) (item : Item) (members : Members) : Members :=
  members.map fun member => if member.1 = key then (key, item) else member

/-- Sets a key that is not there. -/
def add? (key : String) (item : Item) (members : Members) : Option Members :=
  match members.lookup key with
  | some _ => none
  | none => some (members ++ [(key, item)])

/-- Changes the table at a path, in which an array of tables stands for its last table. Tables
that are missing on the way are made; `dotted` says that the path belongs to a dotted key. -/
def update? (dotted : Bool) (change : Origin → Members → Option Members) :
    Origin → List String → Members → Option Members
  | origin, [], members => change origin members
  | _, key :: path, members =>
      match members.lookup key with
      | none =>
          let origin : Origin := if dotted then .dotted else .implied
          (update? dotted change origin path []).bind fun inner =>
            add? key (.table origin inner) members
      | some (.table origin inner) =>
          if origin = .inline ∨ (dotted = true ∧ origin = .header) then none
          else (update? dotted change origin path inner).map fun inner =>
            replace key (.table origin inner) members
      | some (.tables items) =>
          match items.getLast? with
          | none => none
          | some inner => (update? dotted change .header path inner).map fun inner =>
              replace key (.tables (items.dropLast ++ [inner])) members
      | some _ => none

/-- Opens the table that a header names. -/
def openTable? (path : List String) (key : String) (root : Members) : Option Members :=
  update? false (fun _ members =>
    match members.lookup key with
    | none => add? key (.table .header []) members
    | some (.table .implied inner) => some (replace key (.table .header inner) members)
    | some _ => none) .header path root

/-- Adds a table to the array that a header in double brackets names. -/
def appendTable? (path : List String) (key : String) (root : Members) : Option Members :=
  update? false (fun _ members =>
    match members.lookup key with
    | none => add? key (.tables [[]]) members
    | some (.tables items) => some (replace key (.tables (items ++ [[]])) members)
    | some _ => none) .header path root

/-- Sets a key in a table; the path holds the parts of a dotted key before the last one. -/
def set? (origin : Origin) (path : List String) (key : String) (item : Item)
    (members : Members) : Option Members :=
  update? true (fun origin inner =>
    if (origin == .dotted) == path.isEmpty then none else add? key item inner) origin path members

/-- Sets a key in the table that a header named last. -/
def setUnder? (header path : List String) (key : String) (item : Item) (root : Members) :
    Option Members :=
  update? false (fun origin members => set? origin path key item members) .header header root

end FlowAudit.Toml.Table
