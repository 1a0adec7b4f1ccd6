import SchemaAlgebra.Traversal.Judge

/-!
# One step of a run

A step lets the top frame begin its next check, try its next program, or take in the
result of the frame above it that has just finished.
-/
namespace SchemaAlgebra

variable [Library]

/-- A check settles at once, descends into a frame, or waits for a test of a key. -/
inductive Begin where
  | settled (j : Judgement)
  | descend (child : Frame) (pending : Pending)
  | waiting

namespace Traversal

/-- The branches left to test; none if the value fails all of them. -/
def route (t : Traversal) (fallback : List Program) (data : Json) :
    Dispatch → Traversal × Option (List Program)
  | .sequential programs => (t, some programs)
  | .switch probe cases expected =>
    match probe.keyIn? data with
    | none => (t, if t.mode = .apply then some fallback else none)
    | some key => routeCase t probe expected key cases
where
  routeCase (t : Traversal) (probe : Probe) (expected key : String) :
      List (String × Dispatch) → Traversal × Option (List Program)
    | [] =>
      let seen := (data.at? probe.path).getD data
      let problem : Problem.Code × String :=
        match probe.aspect with
        | .domain => (.domain, Problem.kindOf seen)
        | .unit => (.unit, Problem.describeData seen)
      (t.reportAt probe.path problem.1 (Problem.mustBe expected problem.2), none)
    | (k, dispatch) :: r =>
      if k = key then route t fallback data dispatch else routeCase t probe expected key r

def beginUnion (t : Traversal) (dispatch : Dispatch) (fallback : List Program)
    (expected : String) (data : Json) : Traversal × Begin :=
  match t.route fallback data dispatch with
  | (t, none) => (t, .settled .fail)
  | (t, some [only]) => (t, .descend (.start only data false) .whole)
  | (t, some programs) => (t, .descend (.branches ⟨programs, data, none, expected⟩) .whole)

def depthMessage (max : Nat) (name : String) : String :=
  "exceeded the maximum validation depth of " ++ toString max ++ " at " ++ name

def follow (b : Bindings) (t : Traversal) (name : String) (home : Home) (data : Json) :
    Traversal × Begin :=
  match b.node? home name with
  | none => (t.report .dangling ("'" ++ name ++ "' is unresolvable"), .settled .fail)
  | some n =>
    ({ t with depth := t.depth + 1, visited := (home, name) :: t.visited },
      .descend (.target (some n.compile) data) .whole)

def beginDeferred (b : Bindings) (t : Traversal) (name : String) (home : Home) (data : Json) :
    Traversal × Begin :=
  match t.maxDepth with
  | some max =>
    if max ≤ t.depth then (t.report .depth (depthMessage max name), .settled .fail)
    else follow b t name home data
  | none => follow b t name home data

def beginKey (t : Traversal) (name : String) (required : Bool) (program : Program) (data : Json) :
    Traversal × Begin :=
  match data.get? name with
  | some child =>
    ({ t with path := .key name :: t.path }, .descend (.start program child true) (.key name))
  | none =>
    let (t, j) := t.judgeMissing name required
    (t, .settled j)

def beginChildren (t : Traversal) (jobs : List Job) : Traversal × Begin :=
  if jobs.isEmpty then (t, .settled .pass)
  else (t, .descend (.children ⟨jobs, none, .pass, []⟩) .children)

/-- Tests the keys that are not named; absent as long as a test has not ended. -/
def indexJobs (test : Program → String → Option KeyTest) (key value : Program)
    (named : List String) : List (String × Json) → Option (List Job × List (Home × String))
  | [] => some ([], [])
  | (name, child) :: r =>
    if named.contains name then indexJobs test key value named r
    else do
      let result ← test key name
      let (jobs, visited) ← indexJobs test key value named r
      let visited := visited ++ result.visited
      if result.passes then some (⟨.key name, value, child⟩ :: jobs, visited)
      else some (jobs, visited)

def beginIndex (test : Program → String → Option KeyTest) (t : Traversal) (key value : Program)
    (named : List String) (data : Json) : Traversal × Begin :=
  match data with
  | .object entries =>
    match indexJobs test key value named entries with
    | some (jobs, visited) => { t with visited := visited ++ t.visited }.beginChildren jobs
    | none => (t, .waiting)
  | _ => (t, .settled .pass)

def elementJobs (programs : List Program) (rest : Option Program) (items : List Json) : List Job :=
  items.zipIdx.filterMap fun (item, i) =>
    (programs[i]? <|> rest).map fun program => ⟨.index i, program, item⟩

def beginElements (t : Traversal) (programs : List Program) (rest : Option Program)
    (data : Json) : Traversal × Begin :=
  match data with
  | .array items =>
    match t.judgeLength programs.length rest.isSome items with
    | (t, .pass) => t.beginChildren (elementJobs programs rest items)
    | (t, j) => (t, .settled j)
  | _ => (t, .settled .pass)

def settle : Traversal × Judgement → Traversal × Begin
  | (t, j) => (t, .settled j)

def begin? (b : Bindings) (test : Program → String → Option KeyTest) (t : Traversal)
    (check : Check) (data : Json) : Traversal × Begin :=
  match check with
  | .domain d => settle (t.judgeDomain d data)
  | .literal l => settle (t.judgeLiteral l data)
  | .basis c => settle (t.judgeBasis c data)
  | .range r dimension => settle (t.judgeRange r dimension data)
  | .divisor n => settle (t.judgeDivisor n data)
  | .patterns ps => settle (t.judgePatterns ps data)
  | .key name required program => t.beginKey name required program data
  | .index key value named => t.beginIndex test key value named data
  | .elements items rest => t.beginElements items rest data
  | .union dispatch fallback expected => t.beginUnion dispatch fallback expected data
  | .deferred name home => beginDeferred b t name home data
  | .morph input steps => (t, .descend (.morph (some input) steps data) .whole)
  | .never => settle (t.judgeNever data)

/-- Ends a program; its segment of the path ends with it. -/
def finishProgram (t : Traversal) (f : ProgramFrame) (rest : List Frame) (v : Verdict) :
    Traversal :=
  { t with path := if f.nested then t.path.tail else t.path }.finish rest (.value v)

/-- Goes on after a check. To apply means to go on after a failure as well. -/
def foldJudgement (t : Traversal) (f : ProgramFrame) (rest : List Frame) (j : Judgement) :
    Traversal :=
  match j, t.mode with
  | .pass, _ => t.resumeWith (.program f) rest
  | .fail, .apply => t.resumeWith (.program { f with failed := true }) rest
  | .fail, .allow => t.finishProgram f rest .failed
  | .abort, _ => t.finishProgram f rest .failed

def advanceProgram (b : Bindings) (test : Program → String → Option KeyTest) (t : Traversal)
    (f : ProgramFrame) (rest : List Frame) : Traversal :=
  match f.rest with
  | [] => t.finishProgram f rest (if f.failed then .failed else f.output)
  | check :: checks =>
    let g := { f with rest := checks }
    match begin? b test t check f.data with
    | (t, .settled j) => t.foldJudgement g rest j
    | (t, .descend child pending) => t.push child (.program { g with pending := pending }) rest
    | (_, .waiting) => t

def ProgramFrame.current (f : ProgramFrame) : Json :=
  match f.output with
  | .changed v => v
  | _ => f.data

def ProgramFrame.patch (f : ProgramFrame) (s : Segment) (v : Json) : ProgramFrame :=
  { f with output := .changed ((ProgramFrame.current f).replaceChild s v) }

/-- Writes the result of a check into the output. -/
def absorb (f : ProgramFrame) : Pending → Done → ProgramFrame × Judgement
  | .key name, .value (.changed v) => (ProgramFrame.patch f (.key name) v, .pass)
  | .key _, .value .unchanged => (f, .pass)
  | .whole, .value (.changed v) => ({ f with output := .changed v }, .pass)
  | .whole, .value .unchanged => (f, .pass)
  | .children, .children j patches =>
    (patches.foldr (fun (s, v) f => ProgramFrame.patch f s v) f, j)
  | _, _ => (f, .fail)

def resumeProgram (t : Traversal) (f : ProgramFrame) (rest : List Frame) (d : Done) : Traversal :=
  let (g, j) := absorb { f with pending := .nothing } f.pending d
  t.foldJudgement g rest j

def advanceChildren (t : Traversal) (f : ChildrenFrame) (rest : List Frame) : Traversal :=
  match f.jobs with
  | [] => t.finish rest (.children f.judgement f.patches)
  | job :: jobs =>
    { t with path := job.segment :: t.path }.push (.start job.program job.data true)
      (.children { f with jobs := jobs, current := some job.segment }) rest

def resumeChildren (t : Traversal) (f : ChildrenFrame) (rest : List Frame) (v : Verdict) :
    Traversal :=
  let g := { f with current := none }
  match v, t.mode with
  | .changed v, _ =>
    let patches := (f.current.map (·, v)).toList ++ f.patches
    t.resumeWith (.children { g with patches := patches }) rest
  | .unchanged, _ => t.resumeWith (.children g) rest
  | .failed, .allow => t.finish rest (.children .fail [])
  | .failed, .apply => t.resumeWith (.children { g with judgement := .fail }) rest

def advanceBranches (t : Traversal) (f : BranchesFrame) (rest : List Frame) : Traversal :=
  match f.programs with
  | [] =>
    (t.report .union (Problem.mustBe f.expected (Problem.describeData f.data))).finish rest
      (.value .failed)
  | program :: programs =>
    { t with problems := [] }.push (.start program f.data false)
      (.branches { f with programs := programs, saved := some t.problems }) rest

def resumeBranches (t : Traversal) (f : BranchesFrame) (rest : List Frame) (v : Verdict) :
    Traversal :=
  let t := { t with problems := f.saved.getD t.problems }
  match v with
  | .failed => t.resumeWith (.branches { f with saved := none }) rest
  | v => t.finish rest (.value v)

def runStep (b : Bindings) : Step → Transform
  | .builtin s => s.run
  | .registered name home => b.transform home name

/-- Runs the steps of a morph on a value that satisfies its input. -/
def runSteps (b : Bindings) (t : Traversal) (v : Json) : List Step → Traversal × Verdict
  | [] => (t, .changed v)
  | s :: r =>
    match runStep b s v with
    | .ok next => runSteps b t next r
    | .error message =>
      (t.report .morph (message ++ " (was " ++ Problem.describeData v ++ ")"), .failed)

def resumeMorph (b : Bindings) (t : Traversal) (steps : List Step) (data : Json)
    (rest : List Frame) (v : Verdict) : Traversal :=
  match t.mode, v with
  | .apply, .unchanged =>
    let (t, v) := runSteps b t data steps
    t.finish rest (.value v)
  | .apply, .changed w =>
    let (t, v) := runSteps b t w steps
    t.finish rest (.value v)
  | _, v => t.finish rest (.value v)

/-- Starts the program of a frame that waits for only one. -/
def advanceOnce (t : Traversal) (program : Option Program) (data : Json) (waiting : Frame)
    (rest : List Frame) : Traversal :=
  match program with
  | some program => t.push (.start program data false) waiting rest
  | none => t.finish rest (.value .failed)

def advance (b : Bindings) (test : Program → String → Option KeyTest) (t : Traversal)
    (rest : List Frame) : Frame → Traversal
  | .program f => advanceProgram b test t f rest
  | .children f => t.advanceChildren f rest
  | .branches f => t.advanceBranches f rest
  | .target program data => t.advanceOnce program data (.target none data) rest
  | .morph input steps data => t.advanceOnce input data (.morph none steps data) rest

def resume (b : Bindings) (t : Traversal) (rest : List Frame) (d : Done) : Frame → Traversal
  | .program f => t.resumeProgram f rest d
  | .children f => t.resumeChildren f rest d.verdict
  | .branches f => t.resumeBranches f rest d.verdict
  | .target _ _ => { t with depth := t.depth - 1 }.finish rest (.value d.verdict)
  | .morph _ steps data => resumeMorph b t steps data rest d.verdict

/-- One step of the top frame. A finished run stays as it is. -/
def step (b : Bindings) (test : Program → String → Option KeyTest) (t : Traversal) :
    Traversal :=
  match t.stack with
  | [] => t
  | frame :: rest =>
    match t.done with
    | some d => resume b { t with done := none } rest d frame
    | none => advance b test t rest frame

end Traversal

end SchemaAlgebra
