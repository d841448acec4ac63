import RpgLowering.Document.Token

/-! JSON texts as trees. Reading never fails: where the text stops being JSON the tree is cut, so
that whoever walks the tree meets faults in the order of the text. -/
namespace RpgLowering

inductive Document where
  | null
  | bool (b : Bool)
  | number (literal : List Char)
  | string (text : Option String)
  | array (items : List Document)
  | object (members : List (Option String × Document))
  | cut
  deriving Inhabited

namespace Document

mutual

/-- Reads one value; without a rest if the text is cut inside it. -/
def value : Nat → List Token → Document × Option (List Token)
  | 0, _ => (.cut, none)
  | n + 1, ts =>
    match ts with
    | .null :: ts => (.null, some ts)
    | .bool b :: ts => (.bool b, some ts)
    | .number literal :: ts => (.number literal, some ts)
    | .string text :: ts => (.string text, some ts)
    | .openArray :: .closeArray :: ts => (.array [], some ts)
    | .openArray :: ts => let (items, rest) := items n ts; (.array items, rest)
    | .openObject :: .closeObject :: ts => (.object [], some ts)
    | .openObject :: ts => let (members, rest) := members n ts; (.object members, rest)
    | _ => (.cut, none)

/-- Reads one or more items up to the closing bracket. -/
def items : Nat → List Token → List Document × Option (List Token)
  | 0, _ => ([.cut], none)
  | n + 1, ts =>
    match value n ts with
    | (item, none) => ([item], none)
    | (item, some (.comma :: ts)) => let (rest, ts) := items n ts; (item :: rest, ts)
    | (item, some (.closeArray :: ts)) => ([item], some ts)
    | (item, some _) => ([item, .cut], none)

/-- Reads one or more members up to the closing brace. -/
def members : Nat → List Token → List (Option String × Document) × Option (List Token)
  | 0, _ => ([(none, .cut)], none)
  | n + 1, ts =>
    match ts with
    | .string key :: .colon :: ts =>
      match value n ts with
      | (v, none) => ([(key, v)], none)
      | (v, some (.comma :: ts)) => let (rest, ts) := members n ts; ((key, v) :: rest, ts)
      | (v, some (.closeObject :: ts)) => ([(key, v)], some ts)
      | (v, some _) => ([(key, v), (none, .cut)], none)
    | .string key :: _ => ([(key, .cut)], none)
    | _ => ([(none, .cut)], none)

end

/-- The tree of a text, and whether nothing but blanks follows it. Every call takes a token away
or goes from a list to its first value, so twice the number of tokens bounds their depth. -/
def parse (cs : List Char) : Document × Bool :=
  let ts := tokens cs
  let (d, rest) := value (2 * ts.length + 1) ts
  (d, rest == some [])

mutual

/-- Nothing is cut off anywhere. -/
def isWhole : Document → Bool
  | .cut => false
  | .array items => allWhole items
  | .object members => membersWhole members
  | .null | .bool _ | .number _ | .string _ => true

def allWhole : List Document → Bool
  | [] => true
  | d :: ds => d.isWhole && allWhole ds

def membersWhole : List (Option String × Document) → Bool
  | [] => true
  | (_, d) :: ms => d.isWhole && membersWhole ms

end

end Document

end RpgLowering
