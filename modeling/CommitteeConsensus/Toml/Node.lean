import CommitteeConsensus.Toml.Scalar

/-! # TOML tables

    A document is a tree of tables that its statements fill one by one. A table remembers how it
    came to be, because that decides what may still be added to it: a declared table is closed
    to dotted keys and cannot be declared again, one that a longer header implied may still be
    declared, one that dotted keys made may only be extended by dotted keys.
-/

namespace CommitteeConsensus.Toml

/-- How a table came to be. -/
inductive Origin
  | declared
  | implied
  | dotted
deriving DecidableEq

inductive Node
  | scalar (value : Scalar)
  | array (items : List Node)
  | inlineTable (entries : List (List Char × Node))
  | table (origin : Origin) (entries : List (List Char × Node))
  | tables (elements : List (List (List Char × Node)))

abbrev Key := List Char
abbrev Entries := List (Key × Node)

namespace Entries

/-- The value beside a key. -/
def get? (key : Key) : Entries → Option Node
  | [] => none
  | (k, node) :: rest => if k = key then some node else get? key rest

/-- Changes the value beside a key, or adds it at the end. -/
def set (key : Key) (node : Node) : Entries → Entries
  | [] => [(key, node)]
  | (k, old) :: rest => if k = key then (key, node) :: rest else (k, old) :: set key node rest

/-- Changes the table at the end of a path, making the tables on the way that are missing. Of an
    array of tables the last element is meant. Dotted keys stay out of declared tables. -/
def alter (dottedKeys : Bool) (change : Origin → Entries → Option Entries) :
    List Key → Origin → Entries → Option Entries
  | [], origin, es => change origin es
  | key :: path, _, es => do
    match get? key es with
    | none =>
      -- the table comes to be by being named
      let origin := if dottedKeys then .dotted else .implied
      return set key (.table origin (← alter dottedKeys change path origin [])) es
    | some (.table origin inner) =>
      guard !(dottedKeys && origin = .declared)
      return set key (.table origin (← alter dottedKeys change path origin inner)) es
    | some (.tables elements) =>
      let last ← elements.getLast?
      -- an element was declared by its own header
      let last ← alter dottedKeys change path .declared last
      return set key (.tables (elements.dropLast ++ [last])) es
    | some _ => none

end Entries

/-! ## Statements -/

/-- A key path and a value. -/
structure Assignment where
  path : List Key
  key : Key
  value : Node

namespace Entries

/-- A key is given once, and a table is filled by dotted keys or without, not by both. -/
def assign (es : Entries) (a : Assignment) : Option Entries :=
  alter true (fun origin inner => do
    guard (decide (origin = .dotted) ≠ a.path.isEmpty)
    guard (get? a.key inner).isNone
    return inner ++ [(a.key, a.value)]) a.path .declared es

def assignAll (es : Entries) (assignments : List Assignment) : Option Entries :=
  assignments.foldlM assign es

end Entries

/-- A header with the assignments below it. -/
structure Section where
  path : List Key
  key : Key
  isElement : Bool
  assignments : List Assignment

namespace Entries

/-- Declares a table, which keeps what longer headers have put below it. -/
def declare (s : Section) (es : Entries) : Option Entries := do
  match get? s.key es with
  | none => return set s.key (.table .declared (← Entries.assignAll [] s.assignments)) es
  | some (.table .implied inner) =>
    return set s.key (.table .declared (← Entries.assignAll inner s.assignments)) es
  | some _ => none

/-- Adds an element to an array of tables. -/
def append (s : Section) (es : Entries) : Option Entries := do
  let element ← Entries.assignAll [] s.assignments
  match get? s.key es with
  | none => return set s.key (.tables [element]) es
  | some (.tables elements) => return set s.key (.tables (elements ++ [element])) es
  | some _ => none

def addSection (es : Entries) (s : Section) : Option Entries :=
  alter false (fun _ inner => if s.isElement then append s inner else declare s inner)
    s.path .declared es

end Entries

end CommitteeConsensus.Toml
