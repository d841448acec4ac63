import RpgLowering.Real.Binary64

/-! What the keys of a settings file stand for. -/
namespace RpgLowering.Settings

/-- How a table came to be, which decides what may still be added to it. -/
inductive Origin where
  /-- By its own header `[a]`. -/
  | header
  /-- On the way to a header, as `a` is in `[a.b]`. -/
  | implied
  /-- On the way to a key, as `a` is in `a.b = 1`. -/
  | dotted
  /-- Written as one value between braces. -/
  | closed
  deriving DecidableEq, Repr

inductive Value where
  | string (text : String)
  | integer (value : Int64)
  | real (value : Binary64)
  | boolean (value : Bool)
  /-- A date, a time or both. -/
  | moment
  | array (items : List Value)
  | table (origin : Origin) (entries : List (String × Value))
  /-- The tables under headers `[[a]]`. -/
  | tables (elements : List (List (String × Value)))
  deriving Inhabited

abbrev Entries := List (String × Value)

namespace Entries

/-- Replaces what a key stands for. -/
def replace (key : String) (v : Value) : Entries → Entries
  | [] => []
  | e :: es => if e.1 == key then (key, v) :: es else e :: replace key v es

def insertNew (key : String) (v : Value) (es : Entries) : Option Entries :=
  if (es.lookup key).isSome then none else some (es ++ [(key, v)])

end Entries

/-- Changes the last of several. -/
def changeLast {α : Type} (f : α → Option α) (xs : List α) : Option (List α) := do
  let x ← xs.getLast?
  let y ← f x
  some (xs.dropLast ++ [y])

/-- Puts a value under a dotted key. The tables on the way are made by dotted keys or implied by
headers, and the one that receives the value is made by dotted keys. -/
def Entries.put (key : String) (v : Value) : List String → Entries → Option Entries
  | [], es => es.insertNew key v
  | k :: ks, es =>
    match es.lookup k with
    | none => do
      let inner ← Entries.put key v ks []
      some (es ++ [(k, .table .dotted inner)])
    | some (.table origin inner) =>
      if origin == .dotted || (origin == .implied && !ks.isEmpty) then do
        let inner ← Entries.put key v ks inner
        some (es.replace k (.table origin inner))
      else none
    | some (.tables elements) =>
      if ks.isEmpty then none
      else do
        let elements ← changeLast (Entries.put key v ks) elements
        some (es.replace k (.tables elements))
    | some _ => none

/-- Works on the table at the end of a header's path. Tables on the way are made as needed; of
several under one header the last counts. -/
def Entries.within (f : Entries → Option Entries) : List String → Entries → Option Entries
  | [], es => f es
  | k :: ks, es =>
    match es.lookup k with
    | none => do
      let inner ← Entries.within f ks []
      some (es ++ [(k, .table .implied inner)])
    | some (.table .closed _) => none
    | some (.table origin inner) => do
      let inner ← Entries.within f ks inner
      some (es.replace k (.table origin inner))
    | some (.tables elements) => do
      let elements ← changeLast (Entries.within f ks) elements
      some (es.replace k (.tables elements))
    | some _ => none

/-- Opens the table of a header. It may have been implied before, and nothing else. -/
def Entries.openTable (key : String) (es : Entries) : Option Entries :=
  match es.lookup key with
  | none => some (es ++ [(key, .table .header [])])
  | some (.table .implied inner) => some (es.replace key (.table .header inner))
  | some _ => none

/-- Opens a further table under a repeatable header. -/
def Entries.openElement (key : String) (es : Entries) : Option Entries :=
  match es.lookup key with
  | none => some (es ++ [(key, .tables [[]])])
  | some (.tables elements) => some (es.replace key (.tables (elements ++ [[]])))
  | some _ => none

end RpgLowering.Settings
