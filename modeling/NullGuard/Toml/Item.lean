/-!
# Items of a settings file

A settings file is a table: names with items. A table keeps how it came about,
because that decides whether later lines may add to it: a table in braces is
closed, a table with a header takes no second header and no dotted names from
outside, and a table that is only implied may still get a header.

Of the kinds that no setting has (fractions, dates and times) only the kind is
kept.
-/

namespace NullGuard.Toml

/-- How a table came about. -/
inductive Origin where
  /-- Written in braces. -/
  | braces
  /-- By a header of its own; so did the whole file, and each element of an
  array of tables. -/
  | header
  /-- By the header of a table inside it. -/
  | implied
  /-- By a dotted name in front of a value. -/
  | dotted
deriving DecidableEq, Repr

/-- A value or a table. -/
inductive Item where
  | string (text : String)
  | integer (value : Int)
  | boolean (value : Bool)
  | fraction
  | moment
  | array (items : List Item)
  | table (origin : Origin) (fields : List (String × Item))
  /-- An array of tables that have headers. -/
  | tables (elements : List (List (String × Item)))

/-- Names with items, in the order in which they came. -/
abbrev Fields :=
  List (String × Item)

/-- A dotted name: the tables it leads through, and the name in the last of
them. -/
structure Key where
  path : List String
  name : String
deriving DecidableEq, Repr

/-- All parts of a dotted name. -/
def Key.parts (k : Key) : List String :=
  k.path ++ [k.name]

namespace Fields

/-- The item of a name. -/
def get? (fields : Fields) (name : String) : Option Item :=
  (fields.find? fun f => f.1 == name).map Prod.snd

/-- Gives a name an item: in its old place, or behind all others. -/
def put (name : String) (item : Item) : Fields → Fields
  | [] => [(name, item)]
  | f :: rest =>
    if f.1 == name then (name, item) :: rest else f :: put name item rest

/-- Changes the table that a path leads to; an array of tables leads to its last
element. Tables that are missing on the way come about as the path is written:
by dotted names, or implied by a header. A path of dotted names enters no table
that was written in another way as a whole, and no path leads into a value. -/
def change (isDotted : Bool) (f : Origin → Fields → Option Fields) :
    List String → Origin → Fields → Option Fields
  | [], origin, fields => f origin fields
  | name :: path, _, fields =>
    match get? fields name with
    | none => do
      let origin := if isDotted then .dotted else .implied
      return put name
        (.table origin (← change isDotted f path origin [])) fields
    | some (.table origin inner) => do
      if origin == .braces || (isDotted && origin == .header) then none
      return put name
        (.table origin (← change isDotted f path origin inner)) fields
    | some (.tables elements) => do
      let last ← change isDotted f path .header (← elements.getLast?)
      return put name (.tables (elements.dropLast ++ [last])) fields
    | some _ => none

/-- Gives a dotted name an item in a table of some origin. The name must be
free, and it must not lead to a table that has a header. -/
def insert (key : Key) (item : Item) : Origin → Fields → Option Fields :=
  change true (fun origin fields =>
    if (origin == .dotted) == key.path.isEmpty || (get? fields key.name).isSome
      then none
    else some (put key.name item fields)) key.path

/-- Opens the table of a header: a new one, or one that was only implied so
far. -/
def openTable (key : Key) : Fields → Option Fields :=
  change false (fun _ fields =>
    match get? fields key.name with
    | none => some (put key.name (.table .header []) fields)
    | some (.table .implied inner) =>
      some (put key.name (.table .header inner) fields)
    | some _ => none) key.path .header

/-- Opens a new element of the array of tables of a header. -/
def openElement (key : Key) : Fields → Option Fields :=
  change false (fun _ fields =>
    match get? fields key.name with
    | none => some (put key.name (.tables [[]]) fields)
    | some (.tables elements) =>
      some (put key.name (.tables (elements ++ [[]])) fields)
    | some _ => none) key.path .header

/-- Gives a dotted name an item in the table of a header; without a header that
is the whole file. -/
def insertUnder (header : List String) (key : Key) (item : Item) :
    Fields → Option Fields :=
  change false (insert key item) header .header

end Fields

end NullGuard.Toml
