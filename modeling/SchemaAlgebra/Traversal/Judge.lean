import SchemaAlgebra.Traversal.Basic

/-!
# Checks of a value by itself

These checks look at the value at the current place and never descend.
-/
namespace SchemaAlgebra.Traversal

variable [Library]

def judge (t : Traversal) (passes : Bool) (otherwise : Judgement) (code : Problem.Code)
    (message : String) : Traversal × Judgement :=
  if passes then (t, .pass) else (t.report code message, otherwise)

def measure? (dimension : Dimension) (data : Json) : Option Binary64 :=
  match dimension, data with
  | .value, .number _ => data.size?
  | .chars, .string _ => data.size?
  | .items, .array _ => data.size?
  | .dynamic, _ => data.size?
  | _, _ => none

def rangeMessage (r : Range) (data : Json) (size : Option Binary64) : String :=
  match size, data with
  | some x, .number _ => Problem.mustBe r.describe x.format
  | some x, _ => Problem.must ("have length " ++ r.describe) x.format
  | none, _ => Problem.mustBe r.describe (Problem.describeData data)

def judgeRange (t : Traversal) (r : Range) (dimension : Dimension) (data : Json) :
    Traversal × Judgement :=
  let size := measure? dimension data
  t.judge ((size.map r.allows).getD false) .fail .range (rangeMessage r data size)

def patternsMessage (ps : List Pattern) (data : Json) : String :=
  Problem.must ("match " ++ String.intercalate " and " (ps.map (·.expression)))
    (Problem.describeData data)

/-- Whether the items are as many as the programs for them admit. -/
def judgeLength (t : Traversal) (items : Nat) (hasRest : Bool) (data : List Json) :
    Traversal × Judgement :=
  let passes := if hasRest then decide (items ≤ data.length) else data.length == items
  let word := if hasRest then "at least " else "exactly "
  t.judge passes .abort .range
    (Problem.must ("have length " ++ word ++ toString items) (toString data.length))

def judgeDomain (t : Traversal) (d : Domain) (data : Json) : Traversal × Judgement :=
  t.judge (Domain.of data == d) .abort .domain (Problem.mustBe d.describe (Problem.kindOf data))

def judgeLiteral (t : Traversal) (l : Literal) (data : Json) : Traversal × Judgement :=
  t.judge (l.isMatch data) .abort .unit (Problem.mustBe l.expression (Problem.describeData data))

def judgeBasis (t : Traversal) (b : Basis) (data : Json) : Traversal × Judgement :=
  t.judge (b.allows data) .abort .basis (Problem.mustBe b.describe (Problem.describeData data))

def judgeDivisor (t : Traversal) (n : Nat) (data : Json) : Traversal × Judgement :=
  t.judge (data.isMultipleOf n) .fail .divisor
    (Problem.mustBe (Node.describeDivisor n) (Problem.describeData data))

def judgePatterns (t : Traversal) (ps : List Pattern) (data : Json) : Traversal × Judgement :=
  t.judge (data.matchesAll ps) .fail .pattern (patternsMessage ps data)

def judgeNever (t : Traversal) (data : Json) : Traversal × Judgement :=
  t.judge false .abort .union (Problem.mustBe "nothing" (Problem.describeData data))

def judgeMissing (t : Traversal) (key : String) (required : Bool) : Traversal × Judgement :=
  if required then (t.reportAt [key] .missing "must be defined", .fail) else (t, .pass)

end SchemaAlgebra.Traversal
