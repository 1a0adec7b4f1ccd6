import SchemaAlgebra.Proofs.Application
import SchemaAlgebra.Proofs.Agreement
import SchemaAlgebra.Proofs.Entries
import SchemaAlgebra.Proofs.Relocation

/-!
# Applying values part by part

A node that asks for keys or for items is applied to a value by applying the nodes of the parts
to them, each as if it were a value by itself. The problems of the parts follow one another with
the paths to the parts in front, and without problems each part is replaced by what it comes to.
-/
namespace SchemaAlgebra

open Traversal

/-- What applying a node to a value comes to: all problems, or the changed value. -/
abbrev Applied := Except (List Problem) Json

namespace Applied

def problems : Applied → List Problem
  | .ok _ => []
  | .error ps => ps

/-- The changed value, or the value as it was if there are problems. -/
def value (d : Json) : Applied → Json
  | .ok w => w
  | .error _ => d

/-- The problems found in the parts, or the whole if there are none. -/
def ofParts (whole : Json) : List Problem → Applied
  | [] => .ok whole
  | p :: ps => .error (p :: ps)

theorem ofParts_of_ne_nil (whole : Json) {ps : List Problem} (some : ps ≠ []) :
    ofParts whole ps = .error ps := by
  cases ps with
  | nil => exact absurd rfl some
  | cons p ps => rfl

end Applied

section

variable (own : Node → Json → Applied)

/-- The problems of the part of a value that is reached by a segment. -/
def problemsAt (segment : Segment) (m : Node) (x : Json) : List Problem :=
  (own m x).problems.map (Problem.beneath [segment])

/-- The problems under a named key, or that a required key is missing. -/
def problemsUnder (xs : List (String × Json)) (required : Bool) (e : String × Node) :
    List Problem :=
  match Entries.get? e.1 xs with
  | some x => problemsAt own (.key e.1) e.2 x
  | none => if required then [⟨[.key e.1], .missing, "must be defined"⟩] else []

/-- What named keys make of an object: first the required keys are looked at in order, then the
optional ones, and every value under a named key becomes what its node makes of it. -/
def Props.applied (p : Props Node) (xs : List (String × Json)) : Applied :=
  .ofParts (.object (xs.map fun e =>
    (e.1, ((p.get? e.1).map fun m => (own m.1 e.2).value e.2).getD e.2)))
      (p.required.flatMap (problemsUnder own xs true) ++ p.optional.flatMap
        (problemsUnder own xs false))

/-- What a sequence makes of an array: the items are looked at in order, and every item becomes
what the node for it makes of it. -/
def Sequence.applied (s : Sequence Node) (xs : List Json) : Applied :=
  .ofParts (.array (xs.zipIdx.map fun e =>
    ((s.at? e.2).map fun m => (own m e.1).value e.1).getD e.1))
      (xs.zipIdx.flatMap fun e =>
        ((s.at? e.2).map fun m => problemsAt own (.index e.2) m e.1).getD [])

end

namespace Node

variable [Library]

/-- Applying the node to the value ends, and comes to the outcome. -/
def ComesTo (n : Node) (b : Bindings) (maxDepth : Option Nat) (d : Json)
    (outcome : Applied) : Prop :=
  (∀ patience v, n.compile.apply b patience maxDepth d = some v → v.outcome = outcome) ∧
    ∃ least, ∀ patience, least ≤ patience → (n.compile.apply b patience maxDepth d).isSome

/-- Nothing keeps the node from being validated in the end: it has no aliases, or they are capped.
-/
def Concludes (maxDepth : Option Nat) (n : Node) : Prop := n.hasAlias = false ∨ maxDepth.isSome

/-- What applying any node to any value comes to, where that ends. -/
def Outcomes (b : Bindings) (maxDepth : Option Nat) (own : Node → Json → Applied) : Prop :=
  ∀ m x n r, evaluate b (limitTest b maxDepth) n (.root .apply maxDepth)
    (frameOf m.compile x false) = some r → own m x = Program.outcomeBy x r.problems r.value

theorem exists_outcomes (b : Bindings) (maxDepth : Option Nat) :
    ∃ own, Outcomes b maxDepth own := by
  have total (m : Node) (x : Json) : ∃ o : Applied, ∀ n r,
      evaluate b (limitTest b maxDepth) n (.root .apply maxDepth) (frameOf m.compile x false) =
        some r → o = Program.outcomeBy x r.problems r.value := by
    by_cases ends : ∃ n r,
        evaluate b (limitTest b maxDepth) n (.root .apply maxDepth)
          (frameOf m.compile x false) = some r
    · obtain ⟨n, r, evaluated⟩ := ends
      exact ⟨_, fun n' r' evaluated' => by rw [evaluate_unique evaluated' evaluated]⟩
    · exact ⟨.ok x, fun n r evaluated => absurd ⟨n, r, evaluated⟩ ends⟩
  choose own outcomes using total
  exact ⟨own, outcomes⟩

end Node

namespace Traversal

section

variable {b : Bindings} {maxDepth : Option Nat} {own : Node → Json → Applied} {n : Nat}

/-- What the evaluation of a child tells of its own node. -/
structure PartTells (own : Node → Json → Applied) (segment : Segment) (m : Node) (x : Json)
    (r : Report Verdict) : Prop where
  problems : r.problems.reverse = problemsAt own segment m x
  failed : r.value = .failed ↔ r.problems ≠ []
  unchanged : r.value = .unchanged → (own m x).value x = x
  changed : ∀ w, r.value = .changed w → (own m x).value x = w

theorem PartTells.quiet {segment : Segment} {m : Node} {x : Json} {r : Report Verdict}
    (tells : PartTells own segment m x r) (passed : r.value ≠ .failed) : r.problems = [] := by
  by_contra some
  exact passed (tells.failed.mpr some)

variable [Library]

theorem tells_of_evaluate (outcomes : Node.Outcomes b maxDepth own) {segment : Segment} {m : Node}
    {x : Json} {r : Report Verdict} (evaluated : evaluate b (limitTest b maxDepth) n
      ((Site.root .apply maxDepth).inside segment) (frameOf m.compile x true) = some r) :
    PartTells own segment m x r := by
  rw [evaluate_inside] at evaluated
  obtain ⟨u, alone, rfl⟩ := Option.map_eq_some_iff.mp evaluated
  obtain ⟨v, -, told, -, -⟩ :=
    Node.modesAgree b (limitTest b maxDepth) n m .nothing x (Known.nothing_holds x)
    (.root .apply maxDepth) false u alone
  have same := outcomes m x n u alone
  have failed : (u.beneath [segment]).value = .failed ↔
      (u.beneath [segment]).problems ≠ [] := by
    rw [Report.beneath, ne_eq, List.map_eq_nil_iff]
    exact told
  refine ⟨?_, failed, fun unchanged => ?_, fun w changed => ?_⟩
  · rw [problemsAt, same, Report.beneath, ← List.map_reverse]
    congr 1
    cases hv : u.value with
    | failed => rfl
    | _ =>
      have none : u.problems = [] := by
        by_contra some
        rw [told.mpr some] at hv
        cases hv
      rw [none]
      rfl
  · rw [same, show u.value = .unchanged from unchanged]
    rfl
  · rw [same, show u.value = .changed w from changed]
    rfl

/-- Checks that find certain problems and, if there are none, turn what is as `Before` tells into
what is as `After` tells. -/
structure Rewrites (f : ProgramFrame) (r : Report (Option ProgramFrame)) (problems : List Problem)
    (Before After : Json → Prop) : Prop where
  found : r.problems.reverse = problems
  goesOn : ∃ g, r.value = some g ∧ g.data = f.data ∧
    (g.failed = true ↔ f.failed = true ∨ r.problems ≠ []) ∧
    (r.problems = [] → Before (ProgramFrame.current f) → After (ProgramFrame.current g))

variable {test : Program → String → Option KeyTest}
  {frame : Site → Frame → Option (Report Done)} {s : Site} {f : ProgramFrame}
  {Before Between After : Json → Prop}

theorem rewrites_nil {r : Report (Option ProgramFrame)}
    (ran : evalChecks b test frame s [] f = some r)
    (kept : Before (ProgramFrame.current f) → After (ProgramFrame.current f)) :
    Rewrites f r [] Before After := by
  cases ran
  exact ⟨rfl, f, rfl, rfl, by simp [Report.silent], fun _ => kept⟩

theorem rewrites_append {p q : Program} {r : Report (Option ProgramFrame)} {ps qs : List Problem}
    (first : ∀ u, evalChecks b test frame s p f = some u → Rewrites f u ps Before Between)
    (second : ∀ g u, g.data = f.data → evalChecks b test frame s q g = some u →
      Rewrites g u qs Between After)
    (ran : evalChecks b test frame s (p ++ q) f = some r) :
    Rewrites f r (ps ++ qs) Before After := by
  rw [evalChecks_append, Report.bind_eq_some] at ran
  obtain ⟨u, v, here, there, rfl⟩ := ran
  obtain ⟨found, g, value, data, failed, turned⟩ := first u here
  rw [value] at there
  obtain ⟨found', g', value', data', failed', turned'⟩ := second g v data there
  refine ⟨?_, g', value', data'.trans data, ?_, fun none before => ?_⟩
  · rw [Report.after, List.reverse_append, found, found']
  · rw [failed', failed, Report.after_told, or_assoc]
  · obtain ⟨none', none⟩ := List.append_eq_nil_iff.mp none
    exact turned' none' (turned none before)

theorem rewrites_passes {c : Check} {p : Program} {r : Report (Option ProgramFrame)}
    {ps : List Problem} (passes : begin? b test s.fresh c f.data = (s.fresh, .settled .pass))
    (others : ∀ u, evalChecks b test frame s p f = some u → Rewrites f u ps Before After)
    (ran : evalChecks b test frame s (c :: p) f = some r) : Rewrites f r ps Before After := by
  have checked : evalCheck b test frame s c f = some (.silent (f, .pass)) := by
    rw [evalCheck, passes]
    rfl
  rw [evalChecks, checked, Report.bind_silent] at ran
  exact others r ran

theorem rewrites_one {c : Check} {r : Report (Option ProgramFrame)} {ps : List Problem}
    (applies : s.mode = .apply)
    (checked : ∀ a, evalCheck b test frame s c f = some a →
      a.problems.reverse = ps ∧ a.value.1.data = f.data ∧
      a.value.1.failed = f.failed ∧ a.value.2 = (if a.problems = [] then .pass else .fail) ∧
        (a.problems = [] → Before (ProgramFrame.current f) →
          After (ProgramFrame.current a.value.1)))
    (ran : evalChecks b test frame s [c] f = some r) : Rewrites f r ps Before After := by
  rw [evalChecks_one] at ran
  obtain ⟨a, ended, rfl⟩ := Option.map_eq_some_iff.mp ran
  obtain ⟨found, data, failed, judged, turned⟩ := checked a ended
  refine ⟨found, ?_⟩
  simp only [Report.map, judged, applies]
  split_ifs with none
  · exact ⟨a.value.1, rfl, data, by rw [failed]; simp [none], turned⟩
  · exact ⟨{ a.value.1 with failed := true }, rfl,
      data, by simp [none], fun h => absurd h none⟩

end

section

variable {b : Bindings} {maxDepth : Option Nat} {own : Node → Json → Applied} {n : Nat}
  {xs : List (String × Json)}

/-- The object with other values under its keys. -/
def written (xs : List (String × Json)) (h : String → Json → Json) : Json :=
  .object (xs.map fun e => (e.1, h e.1 e.2))

theorem written_congr {h h' : String → Json → Json}
    (same : ∀ e ∈ xs, h e.1 e.2 = h' e.1 e.2) : written xs h = written xs h' :=
  congrArg Json.object (List.map_congr_left fun e he => by rw [same e he])

/-- To replace the value under a key of an object changes this value only. -/
theorem replaceChild_written (sorted : Entries.Sorted xs) {key : String} {x : Json}
    (found : Entries.get? key xs = some x)
    (h : String → Json → Json) (v : Json) : (written xs h).replaceChild (.key key) v =
      written xs fun k y => if k = key then v else h k y := by
  rw [written, written, Json.replaceChild]
  congr 1
  induction xs with
  | nil => cases found
  | cons e r ih =>
    obtain ⟨k, y⟩ := e
    obtain ⟨before, rest⟩ := Entries.sorted_cons.mp sorted
    rw [Entries.get?_cons] at found
    rw [List.map_cons, List.map_cons, Entries.insert]
    split_ifs at found with same
    · subst same
      rw [if_neg (lt_irrefl key), if_pos rfl, if_pos rfl]
      congr 1
      exact List.map_congr_left fun e he => by rw [if_neg (before e he).ne']
    · have later : k < key := before _ (Entries.mem_of_get? found)
      rw [if_neg later.asymm, if_neg same, if_neg (Ne.symm same), ih rest found]

variable [Library]

theorem evalCheck_key {test : Program → String → Option KeyTest}
    {program : Site → ProgramFrame → Option (Report Verdict)}
    {s : Site} {f : ProgramFrame} {key : String} {x : Json} (found : f.data.get? key = some x)
    (required : Bool) (p : Program) :
    evalCheck b test (evalFrame b program) s (.key key required p) f =
      (program (s.inside (.key key)) (frameOf p x true)).map fun r =>
        ⟨absorb f (.key key) (.value r.value), r.problems, r.visited⟩ := by
  have begun : begin? b test s.fresh (.key key required p) f.data =
      ((s.inside (.key key)).fresh, .descend (.start p x true) (.key key)) := by
    simp only [begin?, beginKey, found]
    rfl
  have here : (s.inside (.key key)).fresh.site = s.inside (.key key) := rfl
  have started : Frame.start p x true = .program (frameOf p x true) := rfl
  rw [evalCheck, begun]
  simp only [here, started, evalFrame, Option.map_map]
  congr 1
  funext r
  simp [Report.map, Site.fresh]

theorem evalCheck_key_none {test : Program → String → Option KeyTest}
    {frame : Site → Frame → Option (Report Done)} {s : Site} (applies : s.mode = .apply)
    (top : s.path = []) {f : ProgramFrame} {key : String} (absent : f.data.get? key = none)
    (required : Bool) (p : Program) :
    evalCheck b test frame s (.key key required p) f =
      some ⟨(f, if required then .fail else .pass),
      if required then [⟨[.key key], .missing, "must be defined"⟩] else [], []⟩ := by
  obtain ⟨mode, limit, depth, path⟩ := s
  subst applies top
  simp only [evalCheck, begin?, beginKey, absent, judgeMissing]
  cases required <;> rfl

section

variable (outcomes : Node.Outcomes b maxDepth own) (sorted : Entries.Sorted xs)
include outcomes sorted

/-- A check of a key finds the problems under it, and writes what the value under it comes to. -/
theorem rewrites_key {f : ProgramFrame} (data : f.data = .object xs) {e : String × Node}
    {required : Bool} {h : String → Json → Json}
    (untouched : ∀ x, Entries.get? e.1 xs = some x → h e.1 x = x)
    {r : Report (Option ProgramFrame)}
    (ran : evalChecks b (limitTest b maxDepth) (evalFrame b (evaluate b (limitTest b maxDepth) n))
      (.root .apply maxDepth) [.key e.1 required e.2.compile] f = some r) :
    Rewrites f r (problemsUnder own xs required e) (· = written xs h)
      (· = written xs fun k x => if k = e.1 then (own e.2 x).value x else h k x) := by
  obtain ⟨key, m⟩ := e
  refine rewrites_one rfl (fun a checked => ?_) ran
  have looked : f.data.get? key = Entries.get? key xs := by rw [data]; rfl
  rw [problemsUnder]
  cases found : Entries.get? key xs with
  | none =>
    rw [evalCheck_key_none rfl rfl (looked.trans found)] at checked
    cases checked
    have others (e : String × Json) (he : e ∈ xs) : e.1 ≠ key :=
      Entries.get?_eq_none.mp found e he
    refine ⟨?_, rfl, rfl, ?_, fun _ before => ?_⟩
    · cases required <;> rfl
    · cases required <;> rfl
    · exact before.trans (written_congr fun e he => (if_neg (others e he)).symm)
  | some x =>
    rw [evalCheck_key (looked.trans found)] at checked
    obtain ⟨u, evaluated, rfl⟩ := Option.map_eq_some_iff.mp checked
    have tells : PartTells own (.key key) m x u := tells_of_evaluate outcomes evaluated
    have only (e : String × Json) (he : e ∈ xs) (same : e.1 = key) : e.2 = x := by
      have here : Entries.get? key xs = some e.2 := same ▸ (Entries.get?_eq_some sorted).mpr he
      exact Option.some.inj (here.symm.trans found)
    refine ⟨tells.problems, (absorb_keeps f _ _).data, (absorb_keeps f _ _).failed, ?_,
      fun none before => ?_⟩
    · cases hv : u.value with
      | failed =>
        have some := tells.failed.mp hv
        simp [absorb, some]
      | _ =>
        simp [absorb, tells.quiet (by simp [hv])]
    · cases hv : u.value with
      | failed => exact absurd none (tells.failed.mp hv)
      | unchanged =>
        refine before.trans (written_congr fun e he => ?_)
        split_ifs with same
        · rw [only e he same, tells.unchanged hv, same]
          exact untouched x found
        · rfl
      | changed w =>
        have replaced : (ProgramFrame.current f).replaceChild (.key key) w =
            written xs fun k y => if k = key then w else h k y := by
          rw [show ProgramFrame.current f = _ from before]
          exact replaceChild_written sorted found h w
        refine replaced.trans (written_congr fun e he => ?_)
        split_ifs with same
        · rw [only e he same, tells.changed w hv]
        · rfl

/-- Checks of different keys find the problems under all of them in order. -/
theorem rewrites_entries {es : List (String × Node)} (distinct : (Entries.keys es).Nodup)
    {f : ProgramFrame} (data : f.data = .object xs) {required : Bool} {h : String → Json → Json}
    (untouched : ∀ key ∈ Entries.keys es, ∀ x, Entries.get? key xs = some x → h key x = x)
    {r : Report (Option ProgramFrame)}
    (ran : evalChecks b (limitTest b maxDepth) (evalFrame b (evaluate b (limitTest b maxDepth) n))
      (.root .apply maxDepth) (es.map fun e => .key e.1 required e.2.compile) f = some r) :
    Rewrites f r (es.flatMap (problemsUnder own xs required)) (· = written xs h)
      (· = written xs fun k x => ((Entries.get? k es).map fun m => (own m x).value x).getD
        (h k x)) := by
  induction es generalizing f h r with
  | nil => exact rewrites_nil ran id
  | cons e es ih =>
    obtain ⟨fresh, distinct⟩ := List.nodup_cons.mp distinct
    obtain ⟨here, later⟩ := List.forall_mem_cons.mp untouched
    have absent : Entries.get? e.1 es = none := by
      rw [← Option.not_isSome_iff_eq_none, ← Entries.mem_keys]
      exact fresh
    have others : ∀ key ∈ Entries.keys es, ∀ x, Entries.get? key xs = some x →
        (if key = e.1 then (own e.2 x).value x else h key x) = x := by
      intro key hk x hx
      rw [if_neg (ne_of_mem_of_not_mem hk fresh)]
      exact later key hk x hx
    have all : Rewrites f r _ _ _ :=
      rewrites_append (fun u ran => rewrites_key outcomes sorted data here ran)
      (fun g u same ran => ih distinct (same.trans data) others ran) ran
    have whole : written xs (fun k x =>
        ((Entries.get? k (e :: es)).map fun m => (own m x).value x).getD (h k x)) =
        written xs fun k x => ((Entries.get? k es).map fun m => (own m x).value x).getD
          (if k = e.1 then (own e.2 x).value x else h k x) := by
      refine written_congr fun x _ => ?_
      rw [Entries.get?_cons]
      split_ifs with same
      · rw [same, absent]
        rfl
      · rfl
    rw [whole]
    exact all

end

end

section

variable {b : Bindings} {maxDepth : Option Nat} {own : Node → Json → Applied} {n : Nat}

/-- The items with what the nodes for them make of them, from an index on. -/
def rewritten (own : Node → Json → Applied) (s : Sequence Node) (start : Nat) (xs : List Json) :
    List Json :=
  (xs.zipIdx start).map fun e => ((s.at? e.2).map fun m => (own m e.1).value e.1).getD e.1

/-- The problems of the items, from an index on. -/
def problemsFrom (own : Node → Json → Applied) (s : Sequence Node) (start : Nat)
    (xs : List Json) : List Problem :=
  (xs.zipIdx start).flatMap fun e =>
    ((s.at? e.2).map fun m => problemsAt own (.index e.2) m e.1).getD []

/-- The items with the programs for them, from an index on. -/
def jobsFrom (s : Sequence Node) (start : Nat) (xs : List Json) : List Job :=
  (xs.zipIdx start).filterMap fun e => (s.at? e.2).map fun m => ⟨.index e.2, m.compile, e.1⟩

section

variable (s : Sequence Node) (start : Nat) (x : Json) (xs : List Json)

theorem rewritten_cons : rewritten own s start (x :: xs) =
    ((s.at? start).map fun m => (own m x).value x).getD x :: rewritten own s (start + 1) xs := rfl

theorem problemsFrom_cons : problemsFrom own s start (x :: xs) =
    ((s.at? start).map fun m => problemsAt own (.index start) m x).getD [] ++ problemsFrom own s
      (start + 1) xs := rfl

theorem jobsFrom_cons : jobsFrom s start (x :: xs) =
    ((s.at? start).map fun m => ⟨.index start, m.compile, x⟩).toList ++ jobsFrom s
      (start + 1) xs := by
  rw [jobsFrom, List.zipIdx_cons, List.filterMap_cons, jobsFrom]
  cases s.at? start <;> rfl

end

theorem elementJobs_eq_jobsFrom (s : Sequence Node) (xs : List Json) :
    elementJobs (s.items.map Node.compile) (s.rest.map Node.compile) xs = jobsFrom s 0 xs := by
  rw [elementJobs, jobsFrom]
  congr 1
  funext e
  obtain ⟨x, i⟩ := e
  dsimp only
  rw [Sequence.at?, List.getElem?_map]
  cases s.items[i]? <;> cases s.rest <;> rfl

theorem replaceChild_array (done xs : List Json) (x v : Json) :
    (Json.array (done ++ x :: xs)).replaceChild (.index done.length) v =
      .array (done ++ v :: xs) := by
  rw [Json.replaceChild, List.set_append_right _ _ (Nat.le_refl _), Nat.sub_self,
    List.set_cons_zero]

/-- Behind the items that are done, the others find the problems of all of them in order. If there
are none, they are rewritten by patches. -/
def RewritesItems (own : Node → Json → Applied) (s : Sequence Node) (done xs : List Json)
    (j : Judgement) (patches : List (Segment × Json)) (r : Report Done) : Prop :=
  ∃ ps, r.value = .children (if r.problems = [] then j else .fail) ps ∧
    r.problems.reverse = problemsFrom own s done.length xs ∧
      (r.problems = [] →
        ∀ f, ProgramFrame.current (patchAll f patches) = .array (done ++ xs) →
        ProgramFrame.current (patchAll f ps) = .array (done ++ rewritten own s done.length xs))

section

variable {s : Sequence Node} {done xs : List Json} {x : Json} {j : Judgement}
  {patches : List (Segment × Json)}

theorem length_concat (done : List Json) (v : Json) : (done ++ [v]).length = done.length + 1 := by
  simp

/-- Of an item that need not satisfy anything there is nothing to say. -/
theorem RewritesItems.free (found : s.at? done.length = none) {r : Report Done}
    (later : RewritesItems own s (done ++ [x]) xs j patches r) :
    RewritesItems own s done (x :: xs) j patches r := by
  obtain ⟨ps, value, problems, turned⟩ := later
  rw [length_concat] at problems turned
  refine ⟨ps, value, ?_, fun none f before => ?_⟩
  · rw [problemsFrom_cons, found]
    exact problems
  · rw [rewritten_cons, found]
    have after := turned none f (by rw [before, List.append_assoc]; rfl)
    rwa [List.append_assoc] at after

variable {m : Node} {a : Report Verdict} {u : Report Done} (found : s.at? done.length = some m)
  (tells : PartTells own (.index done.length) m x a)
include found tells

theorem problems_after (problems : u.problems.reverse = problemsFrom own s (done.length + 1) xs) :
    (a.after u).problems.reverse = problemsFrom own s done.length (x :: xs) := by
  rw [Report.after, List.reverse_append, tells.problems, problems, problemsFrom_cons, found]
  rfl

theorem RewritesItems.failed (failed : a.value = .failed)
    (later : RewritesItems own s (done ++ [x]) xs .fail patches u) :
    RewritesItems own s done (x :: xs) j patches (a.after u) := by
  obtain ⟨ps, value, problems, -⟩ := later
  rw [length_concat] at problems
  have some : (a.after u).problems ≠ [] :=
    fun none => tells.failed.mp failed (List.append_eq_nil_iff.mp none).2
  refine ⟨ps, ?_, problems_after found tells problems, fun none => absurd none some⟩
  rw [if_neg some]
  exact value.trans (by rw [ite_self])

/-- An item that passes comes to a value, and the others follow behind it. -/
theorem RewritesItems.passed (passed : a.value ≠ .failed) {patches' : List (Segment × Json)}
    (patched : ∀ f, ProgramFrame.current (patchAll f patches) = .array (done ++ x :: xs) →
      ProgramFrame.current (patchAll f patches') = .array (done ++ (own m x).value x :: xs))
    (later : RewritesItems own s (done ++ [(own m x).value x]) xs j patches' u) :
    RewritesItems own s done (x :: xs) j patches (a.after u) := by
  obtain ⟨ps, value, problems, turned⟩ := later
  rw [length_concat] at problems turned
  have same : (a.after u).problems = u.problems := by
    rw [Report.after, tells.quiet passed, List.append_nil]
  refine ⟨ps, by rw [same]; exact value, problems_after found tells problems,
    fun none f before => ?_⟩
  have after := turned (same ▸ none) f (by rw [patched f before, List.append_assoc]; rfl)
  rw [List.append_assoc] at after
  rw [rewritten_cons, found]
  exact after

end

variable [Library]

theorem evalJobs_rewrites (outcomes : Node.Outcomes b maxDepth own) {s : Sequence Node}
    {xs done : List Json} {j : Judgement} {patches : List (Segment × Json)} {r : Report Done}
    (ran : evalJobs (evaluate b (limitTest b maxDepth) n) (.root .apply maxDepth)
      (jobsFrom s done.length xs) j patches = some r) :
      RewritesItems own s done xs j patches r := by
  induction xs generalizing done j patches r with
  | nil =>
    cases ran
    exact ⟨patches, rfl, rfl, fun _ _ before => before⟩
  | cons x xs ih =>
    rw [jobsFrom_cons] at ran
    cases found : s.at? done.length with
    | none =>
      rw [found, Option.map_none, Option.toList_none, List.nil_append,
        ← length_concat done x] at ran
      exact .free found (ih ran)
    | some m =>
      rw [found, Option.map_some, Option.toList_some, List.singleton_append, evalJobs,
        Report.bind_eq_some] at ran
      obtain ⟨a, u, first, others, rfl⟩ := ran
      have tells : PartTells own (.index done.length) m x a := tells_of_evaluate outcomes first
      cases hv : a.value with
      | failed =>
        rw [hv, ← length_concat done x] at others
        exact .failed found tells hv (ih others)
      | unchanged =>
        rw [hv, ← length_concat done ((own m x).value x)] at others
        refine .passed found tells (by simp [hv]) (fun f before => ?_) (ih others)
        rw [tells.unchanged hv]
        exact before
      | changed w =>
        rw [hv, ← length_concat done ((own m x).value x)] at others
        refine .passed found tells (by simp [hv]) (fun f before => ?_) (ih others)
        rw [tells.changed w hv, ← replaceChild_array done xs x w, ← before]
        rfl

/-- The check of the items of an array whose length is admitted. -/
theorem rewrites_elements (outcomes : Node.Outcomes b maxDepth own) {s : Sequence Node}
    {xs : List Json} (fits : s.admitsLength xs.length = true) {f : ProgramFrame}
    (data : f.data = .array xs) {r : Report (Option ProgramFrame)}
    (ran : evalChecks b (limitTest b maxDepth) (evalFrame b (evaluate b (limitTest b maxDepth) n))
      (.root .apply maxDepth) [.elements (s.items.map Node.compile) (s.rest.map Node.compile)]
        f = some r) :
    Rewrites f r (problemsFrom own s 0 xs) (· = .array xs)
      (· = .array (rewritten own s 0 xs)) := by
  refine rewrites_one rfl (fun a checked => ?_) ran
  have length : fitsLength (s.items.map Node.compile) (s.rest.map Node.compile) xs = true := by
    rw [← fits, fitsLength, Sequence.admitsLength]
    cases s.rest <;> simp
  have begun : begin? b (limitTest b maxDepth) (Site.root .apply maxDepth).fresh
      (.elements (s.items.map Node.compile) (s.rest.map Node.compile)) f.data =
        (Site.root .apply maxDepth).fresh.beginChildren (jobsFrom s 0 xs) := by
    rw [data, begin_elements length, elementJobs_eq_jobsFrom]
  have ended : ∃ u, evalJobs (evaluate b (limitTest b maxDepth) n) (.root .apply maxDepth)
      (jobsFrom s 0 xs) .pass [] =
      some u ∧ a = ⟨absorb f .children u.value, u.problems, u.visited⟩ := by
    rw [evalCheck, begun] at checked
    cases jobs : jobsFrom s 0 xs with
    | nil =>
      rw [jobs] at checked
      cases checked
      exact ⟨_, rfl, rfl⟩
    | cons job others =>
      rw [jobs] at checked
      obtain ⟨u, evaluated, rfl⟩ := Option.map_eq_some_iff.mp checked
      refine ⟨u, evaluated, ?_⟩
      simp only [Site.fresh, List.append_nil]
  obtain ⟨u, evaluated, rfl⟩ := ended
  have from_start : evalJobs (evaluate b (limitTest b maxDepth) n) (.root .apply maxDepth)
      (jobsFrom s ([] : List Json).length xs) .pass [] = some u := evaluated
  obtain ⟨ps, value, problems, turned⟩ := evalJobs_rewrites outcomes from_start
  rw [value]
  have keeps := absorb_keeps f .children (.children (if u.problems = [] then .pass else .fail) ps)
  exact ⟨problems, keeps.data, keeps.failed, rfl, fun none before => turned none f before⟩

end

section

variable {b : Bindings} {maxDepth : Option Nat} {own : Node → Json → Applied} {m : Node}
  {d whole : Json} {problems : List Problem}

/-- What a node comes to whose checks find certain problems and otherwise rewrite the value. -/
theorem applied_of_rewrites [Library] (outcomes : Node.Outcomes b maxDepth own)
    (ends : m.Concludes maxDepth)
    (rewrites : ∀ n f r, f.data = d → evalChecks b (limitTest b maxDepth)
      (evalFrame b (evaluate b (limitTest b maxDepth) n)) (.root .apply maxDepth) m.compile f =
        some r → Rewrites f r problems (· = d) (· = whole)) :
    own m d = .ofParts whole problems := by
  obtain ⟨fuel, r, evaluated⟩ := Node.compile_terminates ends b .apply d
  rw [outcomes m d fuel r evaluated]
  obtain ⟨-, -, told, -, -⟩ := Node.modesAgree b (limitTest b maxDepth) fuel m .nothing d
    (Known.nothing_holds d) (.root .apply maxDepth) false r evaluated
  cases fuel with
  | zero => cases evaluated
  | succ n =>
    rw [evaluate] at evaluated
    obtain ⟨u, checked, rfl⟩ := Option.map_eq_some_iff.mp evaluated
    obtain ⟨found, g, value, data, failed, turned⟩ := rewrites n _ u rfl checked
    have concluded : (u.map conclude).value = if g.failed then .failed else g.output := by
      rw [Report.map, value]
      rfl
    have kept : (u.map conclude).problems = u.problems := rfl
    rw [kept] at told ⊢
    rw [concluded] at told ⊢
    rw [← found]
    by_cases none : u.problems = []
    · have unfailed : g.failed = false := by
        rw [Bool.eq_false_iff, ne_eq, failed]
        simp [frameOf, none]
      have turned : ProgramFrame.current g = whole := turned none rfl
      rw [unfailed, if_neg Bool.false_ne_true] at told ⊢
      rw [none, ← turned, ProgramFrame.current]
      cases output : g.output with
      | failed => exact absurd none (told.mp output)
      | unchanged => exact congrArg Except.ok data.symm
      | changed v => rfl
    · rw [failed.mpr (.inr none), if_pos rfl,
        Applied.ofParts_of_ne_nil whole (List.reverse_eq_nil_iff.not.mpr none)]
      rfl

end

end Traversal

namespace Node

variable {b : Bindings} {maxDepth : Option Nat} {own : Node → Json → Applied}

/-- The outcomes are what applying a node comes to, where that ends. -/
theorem Outcomes.comesTo [Library] (outcomes : Outcomes b maxDepth own) {m : Node}
    (ends : m.Concludes maxDepth) (x : Json) : m.ComesTo b maxDepth x (own m x) := by
  obtain ⟨fuel, r, evaluated⟩ := compile_terminates ends b .apply x
  obtain ⟨-, -, told, -, -⟩ := modesAgree b (limitTest b maxDepth) fuel m .nothing x
    (Known.nothing_holds x) (.root .apply maxDepth) false r evaluated
  refine ⟨fun patience v applied => ?_, Program.isSome_apply_of_evaluate evaluated⟩
  obtain ⟨fuel', r', evaluated', outcome⟩ := Program.evaluate_of_apply applied
  obtain rfl : r' = r := evaluate_unique evaluated' evaluated
  rw [outcome, outcomes m x fuel' r' evaluated', Program.outcomeOf_eq told]

/-- The node of an object whose values are as the properties ask. -/
def objectNode (p : Props Node) : Node := of (.intersection [of (.domain .object), of (.props p)])

/-- The node of an array whose items are as the sequence asks. -/
def arrayNode (s : Sequence Node) : Node :=
  of (.intersection [of (.basis .array), of (.props (.ofSequence s))])

/-- The program of an object tests its keys in order, each as if the value under it were alone. -/
theorem compile_objectNode {p : Props Node} (unsigned : p.index = [])
    (unordered : p.sequence = none) : (objectNode p).compile = .domain .object ::
      (p.required.map (fun e => .key e.1 true e.2.compile) ++ p.optional.map fun e =>
        .key e.1 false e.2.compile) := by
  obtain ⟨required, optional, index, sequence⟩ := p
  subst unsigned unordered
  have under (key : String) : (Known.nothing.learnDomain .object).under key = .nothing := rfl
  have entries (b : Bool) (es : List (String × Node)) :
      lowerEntries b es (Known.nothing.learnDomain .object) =
      es.map fun e => .key e.1 b e.2.compile := by
    rw [lowerEntries_eq]
    simp only [under]
    rfl
  have lowered : (objectNode ⟨required, optional, [], none⟩).compile = .domain .object ::
      (lowerEntries true required (Known.nothing.learnDomain .object) ++
        lowerEntries false optional (Known.nothing.learnDomain .object) ++ [] ++ []) ++ [] := rfl
  rw [lowered, entries, entries]
  simp only [List.append_nil]

theorem compile_arrayNode (s : Sequence Node) :
    (arrayNode s).compile = [.basis .array,
      .elements (s.items.map compile) (s.rest.map compile)] := by
  have lowered : (arrayNode s).compile =
      .basis .array :: (([] ++ [] ++ [] ++ lowerSequence (some s)) ++ []) := rfl
  rw [lowered, lowerSequence_eq]
  rfl

variable [Library]

variable (outcomes : Outcomes b maxDepth own)
include outcomes

/-- Applying the node of an object is applying the nodes of its keys. -/
theorem Outcomes.of_objectNode {p : Props Node} (unsigned : p.index = [])
    (unordered : p.sequence = none) (distinct : p.namedKeys.Nodup)
    (ends : (objectNode p).Concludes maxDepth) {xs : List (String × Json)}
    (sorted : Entries.Sorted xs) : own (objectNode p) (.object xs) = p.applied own xs := by
  obtain ⟨keys, keys', apart⟩ := List.nodup_append.mp distinct
  have whole : Json.object
      (xs.map fun e => (e.1, ((p.get? e.1).map fun m => (own m.1 e.2).value e.2).getD e.2)) =
      written xs fun k x => ((Entries.get? k p.optional).map fun m => (own m x).value x).getD
        (((Entries.get? k p.required).map fun m => (own m x).value x).getD x) := by
    change written xs (fun k x => ((p.get? k).map fun m => (own m.1 x).value x).getD x) = _
    refine written_congr fun e _ => ?_
    rw [Props.get?]
    cases required : Entries.get? e.1 p.required with
    | none => cases Entries.get? e.1 p.optional <;> rfl
    | some m =>
      have absent : Entries.get? e.1 p.optional = none := by
        rw [← Option.not_isSome_iff_eq_none, ← Entries.mem_keys]
        exact fun optional => apart e.1 (Entries.mem_keys.mpr (by rw [required]; rfl)) e.1
          optional rfl
      rw [absent]
      rfl
  rw [Props.applied, whole]
  refine applied_of_rewrites outcomes ends fun n f r data ran => ?_
  rw [compile_objectNode unsigned unordered] at ran
  have untouched : ∀ key ∈ Entries.keys p.optional, ∀ x, Entries.get? key xs = some x →
      ((Entries.get? key p.required).map fun m => (own m x).value x).getD x = x := by
    intro key optional x _
    have absent : Entries.get? key p.required = none := by
      rw [← Option.not_isSome_iff_eq_none, ← Entries.mem_keys]
      exact fun required => apart key required key optional rfl
    rw [absent]
    rfl
  have same : Json.object xs = written xs fun _ x => x :=
    congrArg Json.object (List.map_id' xs).symm
  rw [same]
  refine rewrites_passes (by rw [data]; rfl) (fun u ran => ?_) ran
  exact rewrites_append
    (fun u ran => rewrites_entries outcomes sorted keys data (h := fun _ x => x)
      (fun _ _ _ _ => rfl) ran)
    (fun g u kept ran => rewrites_entries outcomes sorted keys' (kept.trans data) untouched ran) ran

theorem Outcomes.of_arrayNode {s : Sequence Node} (ends : (arrayNode s).Concludes maxDepth)
    {xs : List Json} (fits : s.admitsLength xs.length = true) :
    own (arrayNode s) (.array xs) = s.applied own xs := by
  refine applied_of_rewrites outcomes ends fun n f r data ran => ?_
  rw [compile_arrayNode] at ran
  exact rewrites_passes (by rw [data]; rfl)
    (fun u ran => rewrites_elements outcomes fits data ran) ran

end Node

end SchemaAlgebra
