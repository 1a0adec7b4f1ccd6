import SchemaAlgebra.Compile
import SchemaAlgebra.Node.Admission
import SchemaAlgebra.Problem

/-!
# Running programs

A program runs on a stack of frames, so the depth of the data never limits a run. To
allow a value means to stop at the first failure; to apply a program means to gather all
problems, to run the morphs, and to return the changed value.
-/
namespace SchemaAlgebra

inductive Mode where
  | allow
  | apply
  deriving DecidableEq

/-- What the names in nodes refer to. -/
structure Bindings where
  node? : Home → String → Option Node
  transform : Home → String → Transform

/-- The result of a program: a failure, or a value, kept as it was where nothing changed. -/
inductive Verdict where
  | failed
  | unchanged
  | changed (v : Json)

/-- The result of one check. After an `abort` the other checks mean nothing. -/
inductive Judgement where
  | pass
  | fail
  | abort
  deriving DecidableEq

/-- What becomes of the result that a frame waits for. -/
inductive Pending where
  | nothing
  /-- A changed value replaces the one under the key. -/
  | key (name : String)
  /-- A changed value replaces the whole value. -/
  | whole
  | children

/-- The result of a frame. -/
inductive Done where
  | value (v : Verdict)
  /-- The changed children are written back to their places. -/
  | children (j : Judgement) (patches : List (Segment × Json))

def Done.verdict : Done → Verdict
  | value v => v
  | children _ _ => .failed

/-- The checks of a program that are left to run on the data. -/
structure ProgramFrame where
  rest : Program
  data : Json
  output : Verdict
  failed : Bool
  pending : Pending
  /-- Whether the path is one step longer than outside of the frame. -/
  nested : Bool

structure Job where
  segment : Segment
  program : Program
  data : Json

/-- A program for each of several children. -/
structure ChildrenFrame where
  jobs : List Job
  current : Option Segment
  judgement : Judgement
  /-- The changed children, the latest first. -/
  patches : List (Segment × Json)

/-- Branches to try in order. The problems from before are kept aside. -/
structure BranchesFrame where
  programs : List Program
  data : Json
  saved : Option (List Problem)
  expected : String

inductive Frame where
  | program (f : ProgramFrame)
  | children (f : ChildrenFrame)
  | branches (f : BranchesFrame)
  /-- The target of an alias. -/
  | target (program : Option Program) (data : Json)
  | morph (input : Option Program) (steps : List Step) (data : Json)

def Frame.start (program : Program) (data : Json) (nested : Bool) : Frame :=
  .program ⟨program, data, .unchanged, false, .nothing, nested⟩

/-- Whether a name satisfies the key of a signature, and the aliases visited to find out. -/
structure KeyTest where
  passes : Bool
  visited : List (Home × String)

structure Traversal where
  mode : Mode
  maxDepth : Option Nat
  /-- The number of aliases that are being followed. -/
  depth : Nat
  /-- The innermost segment first. -/
  path : List Segment
  /-- The latest problem first. -/
  problems : List Problem
  /-- The aliases that were followed, the latest first. -/
  visited : List (Home × String)
  stack : List Frame
  /-- The result of the frame that has just finished. -/
  done : Option Done

namespace Json

def replaceChild (data : Json) (s : Segment) (v : Json) : Json :=
  match data, s with
  | .object entries, .key name => .object (Entries.insert name v entries)
  | .array items, .index i => .array (items.set i v)
  | data, _ => data

end Json

namespace Traversal

def start (mode : Mode) (maxDepth : Option Nat) (program : Program) (data : Json) : Traversal :=
  ⟨mode, maxDepth, 0, [], [], [], [.start program data false], none⟩

def isFinished (t : Traversal) : Bool := t.stack.isEmpty

def push (t : Traversal) (child below : Frame) (rest : List Frame) : Traversal :=
  { t with stack := child :: below :: rest }

def resumeWith (t : Traversal) (frame : Frame) (rest : List Frame) : Traversal :=
  { t with stack := frame :: rest }

def finish (t : Traversal) (rest : List Frame) (d : Done) : Traversal :=
  { t with stack := rest, done := some d }

/-- A problem at the current place, or further down by the given keys. -/
def reportAt (t : Traversal) (keys : List String) (code : Problem.Code) (message : String) :
    Traversal :=
  match t.mode with
  | .allow => t
  | .apply =>
    { t with problems := ⟨t.path.reverse ++ keys.map .key, code, message⟩ :: t.problems }

def report (t : Traversal) (code : Problem.Code) (message : String) : Traversal :=
  t.reportAt [] code message

end Traversal

end SchemaAlgebra
