import ShaderVariants.Toml.Value

/-!
# Tables under construction

A configuration text builds up tables entry by entry: by headers that name a table or one more table
of an array, and by keys that may name tables on their way.  Each table remembers how it came about,
because that decides what may still be added to it.
-/

namespace ShaderVariants.Toml

/-- How a table came about. -/
inductive Origin where
  /-- It is on the way to the table that a header names. -/
  | implied
  /-- A header names it. -/
  | header
  /-- It is on the way to the value that a dotted key names. -/
  | dotted
  deriving Repr, DecidableEq

/-- What a key stands for. -/
inductive Entry where
  /-- A value that a key sets; nothing can be added to it. -/
  | value (value : Value)
  | table (origin : Origin) (fields : List (Text × Entry))
  /-- An array of tables that headers name one by one; only the last one can be added to. -/
  | tables (earlier : List Value) (last : List (Text × Entry))

abbrev Fields := List (Text × Entry)

/-- The entries with one of them set; a new one is the last. -/
def setEntry (key : Text) (entry : Entry) : Fields → Fields
  | [] => [(key, entry)]
  | (k, e) :: rest => if k = key then (k, entry) :: rest else (k, e) :: setEntry key entry rest

/-! ## 1. Finished values -/

mutual

def Entry.toValue : Entry → Value
  | .value value => value
  | .table _ fields => .table (toValues fields)
  | .tables earlier last => .array (earlier ++ [.table (toValues last)])
termination_by structural entry => entry

def toValues : List (Text × Entry) → List (Text × Value)
  | [] => []
  | field :: rest => fieldToValue field :: toValues rest
termination_by structural fields => fields

def fieldToValue : Text × Entry → Text × Value
  | (key, entry) => (key, entry.toValue)
termination_by structural field => field

end

/-! ## 2. Keys -/

/-- Sets a value that a dotted key names.  A key is set once.  The way to it does not lead through
tables that a header names, and the table it is set in is either the one that the line belongs to,
as `own` tells, or came about by a dotted key. -/
def assign (value : Value) : (own : Bool) → List Text → Fields → Option Fields
  | _, [], _ => none
  | own, [key], fields =>
    match own, fields.lookup key with
    | true, none => some (setEntry key (.value value) fields)
    | _, _ => none
  | _, key :: rest, fields =>
    match fields.lookup key with
    | none =>
      (assign value true rest []).map fun inner => setEntry key (.table .dotted inner) fields
    | some (.table .header _) => none
    | some (.table origin inner) =>
      (assign value (origin = .dotted) rest inner).map fun inner =>
        setEntry key (.table origin inner) fields
    | some (.tables earlier last) =>
      (assign value false rest last).map fun last => setEntry key (.tables earlier last) fields
    | some (.value _) => none

/-! ## 3. Headers -/

/-- Changes what the last of several keys stands for.  The way there leads through tables, which
come about where there are none, and through the last tables of arrays. -/
def alter (change : Option Entry → Option Entry) : List Text → Fields → Option Fields
  | [], _ => none
  | [key], fields => (change (fields.lookup key)).map fun entry => setEntry key entry fields
  | key :: rest, fields =>
    match fields.lookup key with
    | none => (alter change rest []).map fun inner => setEntry key (.table .implied inner) fields
    | some (.table origin inner) =>
      (alter change rest inner).map fun inner => setEntry key (.table origin inner) fields
    | some (.tables earlier last) =>
      (alter change rest last).map fun last => setEntry key (.tables earlier last) fields
    | some (.value _) => none

/-- What a key stands for once a header has named its table.  A table is named once, and neither
after dotted keys made it nor over anything else. -/
def named? : Option Entry → Option Entry
  | none => some (.table .header [])
  | some (.table .implied fields) => some (.table .header fields)
  | some _ => none

/-- What a key stands for once a header has named one more table of its array.  Only such headers
add to the array. -/
def extended? : Option Entry → Option Entry
  | none => some (.tables [] [])
  | some (.tables earlier last) => some (.tables (earlier ++ [.table (toValues last)]) [])
  | some _ => none

/-- Changes the entries of the table that a header named, or of the last one in its array. -/
def within (change : Fields → Option Fields) : List Text → Fields → Option Fields
  | [], fields => change fields
  | key :: rest, fields =>
    match fields.lookup key with
    | some (.table origin inner) =>
      (within change rest inner).map fun inner => setEntry key (.table origin inner) fields
    | some (.tables earlier last) =>
      (within change rest last).map fun last => setEntry key (.tables earlier last) fields
    | _ => none

end ShaderVariants.Toml
