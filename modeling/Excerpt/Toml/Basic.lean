/-!
Values of TOML. Of dates and of numbers with a fraction only their presence is kept.
-/
namespace Excerpt

/-- How a table came about. -/
inductive TableSort
  /-- By a header of its own, or as the root. -/
  | header
  /-- As a parent of a table with a header. -/
  | implied
  /-- By a dotted key. -/
  | dotted
  /-- Written in braces. -/
  | inline
deriving DecidableEq, Repr

/-- Tables that may still be extended by a dotted key. -/
def TableSort.isImplicit : TableSort → Bool
  | .implied | .dotted => true
  | .header | .inline => false

inductive Toml
  | string (value : String)
  | integer (value : Int)
  | float
  | boolean (value : Bool)
  | datetime
  | array (items : List Toml)
  | table (sort : TableSort) (fields : List (String × Toml))
  /-- Tables under a header in double brackets. -/
  | tables (elements : List Toml)

namespace Toml

abbrev Fields := List (String × Toml)

def fieldAt (key : String) : Fields → Option Toml
  | [] => none
  | (k,v) :: rest => if k = key then some v else fieldAt key rest

/-- Sets a field, in place if it is there. -/
def setField (key : String) (value : Toml) : Fields → Fields
  | [] => [(key,value)]
  | (k,v) :: rest => if k = key then (k,value) :: rest else (k,v) :: setField key value rest

def eraseField (key : String) (fields : Fields) : Fields := fields.filter (·.1 != key)

/-- Changes the table at a path. Parents that do not exist are made; in an array of tables the last
one is meant. With `dotted` the path is that of a dotted key, which may not extend a table that
already has a header or braces. -/
def descend {α : Type} (dotted : Bool)
    (change : TableSort → Fields → Option ((TableSort × Fields) × α)) :
    List String → TableSort → Fields → Option ((TableSort × Fields) × α)
  | [],sort,fields => change sort fields
  | key :: path,sort,fields =>
    match fieldAt key fields with
    | none => do
      let ((s,fs),a) ← descend dotted change path (if dotted then .dotted else .implied) []
      return ((sort,setField key (.table s fs) fields),a)
    | some (.table s fs) =>
      if s = .inline || (dotted && !s.isImplicit) then none
      else do
        let ((s,fs),a) ← descend dotted change path s fs
        return ((sort,setField key (.table s fs) fields),a)
    | some (.tables elements) =>
      match elements.getLast? with
      | some (.table s fs) => do
        let ((s,fs),a) ← descend dotted change path s fs
        return ((sort,setField key (.tables (elements.dropLast ++ [.table s fs])) fields),a)
      | _ => none
    | some _ => none

/-- Puts a value under a key, which may be dotted. A key is given once. -/
def putValue (path : List String) (key : String) (value : Toml) (sort : TableSort)
    (fields : Fields) : Option (TableSort × Fields) :=
  (descend true (fun s fs =>
    if (s == .dotted) == path.isEmpty then none
    else
      match fieldAt key fs with
      | some _ => none
      | none => some ((s,fs ++ [(key,value)]),())) path sort fields).map (·.1)

end Toml

end Excerpt
