import SchemaAlgebra.Traversal.Step

/-!
# Where a union leads

A look at the data tells which branches of a union are left to test. Without anything to
look at, to apply the union tries all of its branches, and an outcome that no branch has is
refused. What holds of a route follows from these three destinations.
-/
namespace SchemaAlgebra

open Traversal

/-- What a route comes to. -/
inductive Destination where
  | branches (programs : List Program)
  | fallback
  | refusal (probe : Probe) (expected : String)

/-- The problem of data in which a probe sees what no branch has. -/
def Probe.problem (p : Probe) (expected : String) (d : Json) : Problem.Code × String :=
  let seen := (d.at? p.path).getD d
  match p.aspect with
  | .domain => (.domain, Problem.mustBe expected (Problem.kindOf seen))
  | .unit => (.unit, Problem.mustBe expected (Problem.describeData seen))

theorem Probe.problem_code_ne {code : Problem.Code} (domain : code ≠ .domain)
    (unit : code ≠ .unit) (p : Probe) (expected : String) (d : Json) :
    (p.problem expected d).1 ≠ code := by
  rw [problem]
  cases p.aspect with
  | domain => exact domain.symm
  | unit => exact unit.symm

namespace Destination

/-- What a run reports at the destination, and the programs it goes on with. -/
def reached (t : Traversal) (fallback : List Program) (d : Json) :
    Destination → Traversal × Option (List Program)
  | .branches programs => (t, some programs)
  | .fallback => (t, if t.mode = .apply then some fallback else none)
  | .refusal probe expected =>
    (t.reportAt probe.path (probe.problem expected d).1 (probe.problem expected d).2, none)

/-- The branches that are left to test. -/
def branches? : Destination → Option (List Program)
  | .branches programs => some programs
  | _ => none

theorem reached_allow {t : Traversal} (allows : t.mode = .allow) (fallback : List Program)
    (d : Json) (dest : Destination) : dest.reached t fallback d = (t, dest.branches?) := by
  cases dest with
  | branches programs => rfl
  | fallback => simp [reached, allows, branches?]
  | refusal probe expected => simp [reached, reportAt, allows, branches?]

end Destination

namespace Dispatch

/-- The data lead through the looks of a union to the destination. -/
inductive Leads (d : Json) : Dispatch → Destination → Prop
  | sequential (programs : List Program) : Leads d (.sequential programs) (.branches programs)
  | absent {probe : Probe} {cases : List (String × Dispatch)} {expected : String}
      (unseen : probe.keyIn? d = none) : Leads d (.switch probe cases expected) .fallback
  | refused {probe : Probe} {cases : List (String × Dispatch)} {expected key : String}
      (seen : probe.keyIn? d = some key) (unknown : cases.lookup key = none) :
      Leads d (.switch probe cases expected) (.refusal probe expected)
  | case {probe : Probe} {cases : List (String × Dispatch)} {expected key : String}
      {next : Dispatch} {dest : Destination} (seen : probe.keyIn? d = some key)
      (known : cases.lookup key = some next) (leads : Leads d next dest) :
      Leads d (.switch probe cases expected) dest

variable {d : Json}

mutual

theorem exists_leads (d : Json) : ∀ dispatch : Dispatch, ∃ dest, dispatch.Leads d dest
  | .sequential programs => ⟨_, .sequential programs⟩
  | .switch probe cases expected => by
    cases seen : probe.keyIn? d with
    | none => exact ⟨_, .absent seen⟩
    | some key =>
      cases known : cases.lookup key with
      | none => exact ⟨_, .refused seen known⟩
      | some next =>
        obtain ⟨dest, leads⟩ := exists_leads_case d cases key next known
        exact ⟨dest, .case seen known leads⟩

theorem exists_leads_case (d : Json) : ∀ (cases : List (String × Dispatch)) (key : String)
    (next : Dispatch), cases.lookup key = some next → ∃ dest, next.Leads d dest
  | (k, dispatch) :: cases, key, next, known => by
    rw [List.lookup_cons] at known
    split at known
    · cases known
      exact exists_leads d dispatch
    · exact exists_leads_case d cases key next known

end

theorem routeCase_eq (t : Traversal) (fallback : List Program) (d : Json) (probe : Probe)
    (expected key : String) (cases : List (String × Dispatch)) :
    route.routeCase fallback d t probe expected key cases =
      (cases.lookup key).elim ((Destination.refusal probe expected).reached t fallback d)
        (t.route fallback d) := by
  induction cases with
  | nil =>
    rw [route.routeCase, Destination.reached, Probe.problem]
    cases probe.aspect <;> rfl
  | cons c cases ih =>
    rw [route.routeCase, List.lookup_cons, ih]
    by_cases same : c.1 = key
    · simp [same]
    · have unlike : (key == c.1) = false := beq_eq_false_iff_ne.mpr (Ne.symm same)
      simp [same, unlike]

/-- A route reports and returns what its destination says. -/
theorem Leads.route_eq {dispatch : Dispatch} {dest : Destination} (leads : dispatch.Leads d dest)
    (t : Traversal) (fallback : List Program) :
    t.route fallback d dispatch = dest.reached t fallback d := by
  induction leads with
  | sequential programs => rfl
  | absent unseen =>
    simp only [route, unseen]
    rfl
  | refused seen unknown =>
    simp only [route, seen, routeCase_eq, unknown]
    rfl
  | case seen known leads ih =>
    simp only [route, seen, routeCase_eq, known]
    exact ih

theorem Leads.route_allow {dispatch : Dispatch} {dest : Destination} (leads : dispatch.Leads d dest)
    {t : Traversal} (allows : t.mode = .allow) (fallback : List Program) :
    t.route fallback d dispatch = (t, dest.branches?) :=
  (leads.route_eq t fallback).trans (dest.reached_allow allows fallback d)

/-- Only data that a probe sees are refused. -/
theorem Leads.isSome_at {dispatch : Dispatch} {probe : Probe} {expected : String}
    (leads : dispatch.Leads d (.refusal probe expected)) : (d.at? probe.path).isSome := by
  generalize refused : Destination.refusal probe expected = dest at leads
  induction leads with
  | sequential programs => cases refused
  | absent unseen => cases refused
  | refused seen unknown =>
    cases refused
    rw [← Option.isSome_map, ← Probe.keyIn?, seen, Option.isSome_some]
  | case seen known leads ih => exact ih refused

theorem exists_reached (d : Json) (dispatch : Dispatch) : ∃ dest, dispatch.Leads d dest ∧
    ∀ (t : Traversal) (fallback : List Program),
      t.route fallback d dispatch = dest.reached t fallback d :=
  (dispatch.exists_leads d).imp fun _ leads => ⟨leads, leads.route_eq⟩

end Dispatch

end SchemaAlgebra
