import SchemaAlgebra.Proofs.Adequacy
import SchemaAlgebra.Proofs.Lowering

/-!
# The two modes agree

To allow a value stops at the first failure and takes data without anything to look at for
a failure; to apply a program goes on, and then tries every branch. Where applying a program
ends, allowing the value does, and what is applied without problems is allowed.
-/
namespace SchemaAlgebra
namespace Site

def inMode (s : Site) (mode : Mode) : Site := { s with mode := mode }

def applying (s : Site) : Site := s.inMode .apply

def allowing (s : Site) : Site := s.inMode .allow

end Site

namespace Traversal

/-- The frame of a program after a check. -/
structure Keeps (f g : ProgramFrame) : Prop where
  data : g.data = f.data
  failed : g.failed = f.failed
  output : f.output ≠ .failed → g.output ≠ .failed

theorem Keeps.refl (f : ProgramFrame) : Keeps f f := ⟨rfl, rfl, id⟩

theorem Keeps.trans {f g h : ProgramFrame} (first : Keeps f g) (second : Keeps g h) :
    Keeps f h where
  data := second.data.trans first.data
  failed := second.failed.trans first.failed
  output started := second.output (first.output started)

/-- A frame that has only begun has not failed, nor has one that a check keeps. -/
theorem Keeps.unfailed {p : Program} {nested : Bool} {g : ProgramFrame}
    (keeps : Keeps (frameOf p d nested) g) : g.output ≠ .failed ∧ g.failed = false :=
  ⟨keeps.output nofun, keeps.failed⟩

theorem absorb_keeps (f : ProgramFrame) (pending : Pending) (result : Done) :
    Keeps f (absorb f pending result).1 := by
  have patched (patches : List (Segment × Json)) :
      Keeps f (patches.foldr (fun e f => ProgramFrame.patch f e.1 e.2) f) := by
    induction patches with
    | nil => exact .refl f
    | cons e patches ih => exact ih.trans ⟨rfl, rfl, fun _ => nofun⟩
  cases result with
  | value v =>
    cases pending <;> cases v <;> exact ⟨rfl, rfl, fun h => by first | exact h | exact nofun⟩
  | children j patches =>
    cases pending with
    | children => exact patched patches
    | _ => exact .refl f

theorem goOn_keeps {f g : ProgramFrame} {j : Judgement} (h : goOn .allow f j = some g) :
    Keeps f g := by
  cases j with
  | pass =>
    cases h
    exact .refl f
  | fail => cases h
  | abort => cases h

section

variable {b : Bindings} {test : Program → String → Option KeyTest}
  {frame : Site → Frame → Option (Report Done)}

variable [Library]

theorem evalCheck_keeps {s : Site} {c : Check} {f : ProgramFrame}
    {r : Report (ProgramFrame × Judgement)} (h : evalCheck b test frame s c f = some r) :
    Keeps f r.value.1 := by
  rw [evalCheck] at h
  split at h
  · cases h
    exact .refl f
  · obtain ⟨u, -, rfl⟩ := Option.map_eq_some_iff.mp h
    exact absorb_keeps f _ _
  · cases h

theorem evalChecks_append (s : Site) (p q : Program) (f : ProgramFrame) :
    evalChecks b test frame s (p ++ q) f =
      Report.bind (evalChecks b test frame s p f) fun g =>
        match g with
        | some g => evalChecks b test frame s q g
        | none => some (.silent none) := by
  induction p generalizing f with
  | nil => exact (Report.bind_silent _ _).symm
  | cons c p ih =>
    rw [List.cons_append, evalChecks, evalChecks, Report.bind_assoc]
    congr 1
    funext x
    obtain ⟨g, j⟩ := x
    dsimp only
    cases goOn s.mode g j with
    | none => exact (Report.bind_silent _ _).symm
    | some g => exact ih g

theorem evalChecks_one (s : Site) (c : Check) (f : ProgramFrame) :
    evalChecks b test frame s [c] f =
      (evalCheck b test frame s c f).map fun r => r.map fun x => goOn s.mode x.1 x.2 := by
  rw [evalChecks]
  cases evalCheck b test frame s c f with
  | none => rfl
  | some r =>
    simp only [Report.bind, Option.bind_some, Option.map_some, evalChecks]
    cases h : goOn s.mode r.value.1 r.value.2 <;> simp [Report.map, h, Report.after_silent]

end

theorem isPassed_iff {v : Verdict} : isPassed v = true ↔ v ≠ .failed := by
  cases v <;> simp [isPassed]

/-- What the two modes come to on a value. To apply a program fails exactly with problems. -/
structure Concord (plain facts : Prop) (applied : Verdict) (problems : List Problem)
    (allowed : Verdict) : Prop where
  told : applied = .failed ↔ problems ≠ []
  passed : applied ≠ .failed → allowed ≠ .failed ∧ facts
  plain : plain → allowed ≠ .failed → applied = .unchanged

theorem Concord.mono {plain plain' facts facts' : Prop} {applied : Verdict}
    {problems : List Problem} {allowed : Verdict} (h : Concord plain facts applied problems allowed)
    (hp : plain' → plain) (hf : facts → facts') :
    Concord plain' facts' applied problems allowed :=
  ⟨h.told, fun passed => (h.passed passed).imp id hf, fun holds => h.plain (hp holds)⟩

/-- If applying the program to the value ends, so does allowing it, and the two agree. -/
def Agrees (program : Site → ProgramFrame → Option (Report Verdict)) (plain facts : Prop)
    (p : Program) (d : Json) : Prop :=
  ∀ (s : Site) (nested : Bool) (r : Report Verdict),
    program s.applying (frameOf p d nested) = some r →
      ∃ u : Report Verdict, program s.allowing (frameOf p d nested) = some u ∧
        Concord plain facts r.value r.problems u.value

/-- What the two modes come to with one check. -/
structure CheckConcord (plain facts after : Prop) (f : ProgramFrame)
    (applied : Report (ProgramFrame × Judgement)) (allowed : Judgement) : Prop where
  told : applied.value.2 = .pass ↔ applied.problems = []
  passed : applied.value.2 = .pass → allowed = .pass ∧ facts
  ended : applied.value.2 = .abort → allowed ≠ .pass
  after : applied.value.2 ≠ .abort → after
  plain : plain → allowed = .pass →
    applied.value.2 = .pass ∧ applied.value.1.output = f.output

/-- What the two modes come to with checks in order. -/
structure ChecksConcord (plain facts after : Prop) (f : ProgramFrame)
    (applied : Report (Option ProgramFrame)) (allowed : Option ProgramFrame) : Prop where
  ended : applied.value = none → applied.problems ≠ [] ∧ allowed = none
  going : ∀ g, applied.value = some g → after ∧ g.data = f.data ∧
    (g.failed = true ↔ f.failed = true ∨ applied.problems ≠ []) ∧
      (f.output ≠ .failed → g.output ≠ .failed)
  passed : applied.problems = [] → allowed.isSome ∧ facts
  plain : plain → allowed.isSome →
    applied.problems = [] ∧ ∀ g, applied.value = some g → g.output = f.output

variable [Library]

section

variable (b : Bindings) (test : Program → String → Option KeyTest)
  (program : Site → ProgramFrame → Option (Report Verdict))

def CheckAgrees (plain facts after : Prop) (s : Site) (c : Check) (d : Json) : Prop :=
  ∀ (f g : ProgramFrame) (r : Report (ProgramFrame × Judgement)), f.data = d → g.data = d →
    evalCheck b test (evalFrame b program) s.applying c f = some r →
      ∃ u, evalCheck b test (evalFrame b program) s.allowing c g = some u ∧
        CheckConcord plain facts after f r u.value.2

def ChecksAgree (plain facts after : Prop) (p : Program) (d : Json) : Prop :=
  ∀ (s : Site) (f g : ProgramFrame) (r : Report (Option ProgramFrame)), f.data = d →
    g.data = d → evalChecks b test (evalFrame b program) s.applying p f = some r →
      ∃ u, evalChecks b test (evalFrame b program) s.allowing p g = some u ∧
        (∀ g', u.value = some g' → Keeps g g') ∧ ChecksConcord plain facts after f r u.value

end

section

variable {b : Bindings} {test : Program → String → Option KeyTest}
  {program : Site → ProgramFrame → Option (Report Verdict)} {plain facts after : Prop}
  {s : Site} {d : Json}

theorem checksAgree_nil (h : after) : ChecksAgree b test program plain True after [] d := by
  intro s f g r hf hg applied
  cases applied
  refine ⟨_, rfl, fun g' hg' => ?_, ?_⟩
  · cases hg'
    exact .refl g
  · refine ⟨nofun, fun g' hg' => ?_, fun _ => ⟨rfl, trivial⟩,
      fun _ _ => ⟨rfl, fun g' hg' => ?_⟩⟩
    · cases hg'
      exact ⟨h, rfl, by simp [Report.silent], id⟩
    · cases hg'
      rfl

theorem checksAgree_one {c : Check}
    (h : ∀ s, CheckAgrees b test program plain facts after s c d) :
    ChecksAgree b test program plain facts after [c] d := by
  intro s f g r hf hg applied
  rw [evalChecks_one] at applied
  obtain ⟨a, found, rfl⟩ := Option.map_eq_some_iff.mp applied
  obtain ⟨u, allowed, concord⟩ := h s f g a hf hg found
  have kept := evalCheck_keeps found
  have kept' := evalCheck_keeps allowed
  refine ⟨u.map fun x => goOn .allow x.1 x.2, by rw [evalChecks_one, allowed]; rfl, ?_, ?_⟩
  · intro g' hg'
    exact kept'.trans (goOn_keeps hg')
  · obtain ⟨⟨f', j⟩, problems, visited⟩ := a
    obtain ⟨⟨g', j'⟩, problems', visited'⟩ := u
    cases j with
    | pass =>
      have quiet : problems = [] := concord.told.mp rfl
      obtain ⟨rfl, facts⟩ : j' = .pass ∧ facts := concord.passed rfl
      refine ⟨fun h => (by cases h), fun g hg => ?_, fun _ => ⟨rfl, facts⟩,
        fun hp _ => ⟨quiet, fun g hg => ?_⟩⟩
      · cases hg
        have failed : f'.failed = f.failed := kept.failed
        exact ⟨concord.after (by simp),
          kept.data, by simp [Report.map, quiet, failed], kept.output⟩
      · cases hg
        exact (concord.plain hp rfl).2
    | fail =>
      have told : problems ≠ [] := fun quiet => by cases concord.told.mpr quiet
      refine ⟨fun h => (by cases h), fun g hg => ?_, fun quiet => absurd quiet told,
        fun hp passed => ?_⟩
      · cases hg
        exact ⟨concord.after (by simp), kept.data, by simp [Report.map, told], kept.output⟩
      · cases j' with
        | pass => cases (concord.plain hp rfl).1
        | fail => cases passed
        | abort => cases passed
    | abort =>
      have told : problems ≠ [] := fun quiet => by cases concord.told.mpr quiet
      refine ⟨fun _ => ⟨told, ?_⟩, fun g hg => (by cases hg), fun quiet => absurd quiet told,
        fun hp passed => ?_⟩
      · cases j' with
        | pass => exact absurd rfl (concord.ended rfl)
        | fail => rfl
        | abort => rfl
      · cases j' with
        | pass => cases (concord.plain hp rfl).1
        | fail => cases passed
        | abort => cases passed

omit [Library] in
theorem ChecksConcord.append {facts' after' : Prop} {f f' : ProgramFrame}
    {a v : Report (Option ProgramFrame)} {u w : Option ProgramFrame} (ha : a.value = some f')
    (first : ChecksConcord plain facts after f a u)
    (others : ChecksConcord plain facts' after' f' v w) :
    ChecksConcord plain (facts ∧ facts') after' f (a.after v) (u.bind fun _ => w) := by
  obtain ⟨-, data, failed, output⟩ := first.going f' ha
  refine ⟨fun h => ?_, fun g hg => ?_, fun quiet => ?_, fun hp passed => ?_⟩
  · obtain ⟨told, rfl⟩ := others.ended h
    exact ⟨by simp [Report.after, told], by cases u <;> rfl⟩
  · obtain ⟨holds, data', failed', output'⟩ := others.going g hg
    refine ⟨holds, data'.trans data, ?_, fun started => output' (output started)⟩
    rw [failed', failed, Report.after_told, or_assoc]
  · obtain ⟨quiet', quiet⟩ := List.append_eq_nil_iff.mp quiet
    obtain ⟨some_u, facts⟩ := first.passed quiet
    obtain ⟨some_w, facts'⟩ := others.passed quiet'
    obtain ⟨g, rfl⟩ := Option.isSome_iff_exists.mp some_u
    exact ⟨some_w, facts, facts'⟩
  · cases u with
    | none => cases passed
    | some g =>
      obtain ⟨quiet, same⟩ := first.plain hp rfl
      obtain ⟨quiet', same'⟩ := others.plain hp passed
      refine ⟨by simp [Report.after, quiet, quiet'], fun g hg => ?_⟩
      exact (same' g hg).trans (same f' ha)

theorem checksAgree_append {facts' after' : Prop} {p q : Program}
    (first : ChecksAgree b test program plain facts after p d)
    (others : after → ChecksAgree b test program plain facts' after' q d) :
    ChecksAgree b test program plain (facts ∧ facts') after' (p ++ q) d := by
  intro s f g r hf hg applied
  rw [evalChecks_append, Report.bind_eq_some] at applied
  obtain ⟨a, v, here, there, rfl⟩ := applied
  obtain ⟨u, allowed, kept, concord⟩ := first s f g a hf hg here
  rw [evalChecks_append, allowed]
  cases ha : a.value with
  | none =>
    rw [ha] at there
    cases there
    obtain ⟨told, hu⟩ := concord.ended ha
    refine ⟨u.after (.silent none), Report.bind_eq_some.mpr ⟨u, _, rfl, by rw [hu], rfl⟩,
      nofun, ?_⟩
    refine ⟨fun _ => ⟨by simpa [Report.after, Report.silent] using told, rfl⟩, nofun,
      fun quiet => ?_, nofun⟩
    exact absurd (by simpa [Report.after, Report.silent] using quiet) told
  | some f' =>
    obtain ⟨holds, data, -, -⟩ := concord.going f' ha
    rw [ha] at there
    cases hu : u.value with
    | none =>
      obtain ⟨w, -, -, concord'⟩ := others holds s f' g v (data.trans hf) hg there
      refine ⟨u.after (.silent none), Report.bind_eq_some.mpr ⟨u, _, rfl, by rw [hu], rfl⟩,
        nofun, ?_⟩
      have both := concord.append ha concord'
      rw [hu] at both
      exact both
    | some g' =>
      have keeps := kept g' hu
      obtain ⟨w, allowed', kept', concord'⟩ :=
        others holds s f' g' v (data.trans hf) (keeps.data.trans hg) there
      refine ⟨u.after w, Report.bind_eq_some.mpr ⟨u, w, rfl, by rw [hu]; exact allowed', rfl⟩,
        fun h hh => keeps.trans (kept' h hh), ?_⟩
      have both := concord.append ha concord'
      rw [hu] at both
      exact both

omit [Library] in
theorem Agrees.mono {plain' facts' : Prop} {p : Program} (h : Agrees program plain facts p d)
    (hp : plain' → plain) (hf : facts → facts') : Agrees program plain' facts' p d := by
  intro s nested r applied
  obtain ⟨u, allowed, concord⟩ := h s nested r applied
  exact ⟨u, allowed, concord.mono hp hf⟩

theorem CheckAgrees.mono {facts' after' : Prop} {c : Check}
    (h : CheckAgrees b test program plain facts after s c d) (hf : facts → facts')
    (ha : after → after') : CheckAgrees b test program plain facts' after' s c d := by
  intro f g r hf' hg applied
  obtain ⟨u, allowed, concord⟩ := h f g r hf' hg applied
  exact ⟨u, allowed, concord.told, fun passed => (concord.passed passed).imp id hf, concord.ended,
    fun going => ha (concord.after going), concord.plain⟩

theorem ChecksAgree.mono {plain' facts' after' : Prop} {p : Program}
    (h : ChecksAgree b test program plain facts after p d) (hp : plain' → plain)
    (hf : facts → facts') (ha : after → after') :
    ChecksAgree b test program plain' facts' after' p d := by
  intro s f g r hf' hg applied
  obtain ⟨u, allowed, kept, concord⟩ := h s f g r hf' hg applied
  exact ⟨u, allowed, kept, concord.ended, fun g' hg' => (concord.going g' hg').imp ha id,
    fun quiet => (concord.passed quiet).imp id hf, fun holds => concord.plain (hp holds)⟩

theorem ChecksAgree.agrees {n : Nat} {p : Program}
    (h : ChecksAgree b test (evaluate b test n) plain facts after p d) :
    Agrees (evaluate b test (n + 1)) plain facts p d := by
  intro s nested r applied
  rw [evaluate] at applied
  obtain ⟨a, found, rfl⟩ := Option.map_eq_some_iff.mp applied
  obtain ⟨u, allowed, kept, concord⟩ := h s _ (frameOf p d nested) a rfl rfl found
  refine ⟨u.map
    conclude, by rw [evaluate]; exact Option.map_eq_some_iff.mpr ⟨u, allowed, rfl⟩, ?_⟩
  have told : conclude a.value = .failed ↔ a.problems ≠ [] := by
    cases ha : a.value with
    | none => simp [conclude, (concord.ended ha).1]
    | some f =>
      obtain ⟨-, -, failed, output⟩ := concord.going f ha
      have unfailed : f.output ≠ .failed := output (by simp [frameOf])
      simp only [conclude]
      split
      · rename_i h
        simpa [frameOf] using failed.mp h
      · rename_i h
        simpa [unfailed, frameOf, h] using failed
  have allows : conclude u.value ≠ .failed ↔ u.value.isSome := by
    cases hu : u.value with
    | none => simp [conclude]
    | some g =>
      obtain ⟨unfailed, going⟩ := (kept g hu).unfailed
      simp [conclude, unfailed, going]
  refine ⟨told, fun passed => ?_, fun hp passed => ?_⟩
  · have quiet : a.problems = [] := by
      by_contra problems
      exact passed (told.mpr problems)
    exact ⟨allows.mpr (concord.passed quiet).1, (concord.passed quiet).2⟩
  · obtain ⟨quiet, same⟩ := concord.plain hp (allows.mp passed)
    cases ha : a.value with
    | none => exact absurd quiet (concord.ended ha).1
    | some f =>
      obtain ⟨-, -, failed, -⟩ := concord.going f ha
      have unfailed : f.failed = false := by simpa [frameOf, quiet] using failed
      simp [Report.map, ha, conclude, unfailed, same f ha, frameOf]

/-- A check that settles, with one problem where it does not pass. -/
theorem checkAgrees_settled {c : Check} {passes : Bool} {otherwise : Judgement}
    (hne : otherwise ≠ .pass)
    (h : ∀ mode, ∃ keys code message, begin? b test (s.inMode mode).fresh c d =
      if passes then ((s.inMode mode).fresh, .settled .pass)
      else ((s.inMode mode).fresh.reportAt keys code message, .settled otherwise)) :
    CheckAgrees b test program plain (passes = true) (otherwise = .abort → passes = true)
      s c d := by
  intro f g r hf hg applied
  obtain ⟨keys, code, message, begun⟩ := h .apply
  obtain ⟨keys', code', message', begun'⟩ := h .allow
  rw [evalCheck, hf, Site.applying, begun] at applied
  rw [evalCheck, hg, Site.allowing, begun']
  cases passes with
  | true =>
    cases applied
    exact ⟨_, rfl, ⟨by simp [Site.fresh],
      fun _ => ⟨rfl, rfl⟩, by simp, fun _ _ => rfl, fun _ _ => ⟨rfl, rfl⟩⟩⟩
  | false =>
    cases applied
    refine ⟨_, rfl, ⟨?_, fun h => absurd h hne, fun _ => hne, fun h ended => absurd ended h,
      fun _ h => absurd h hne⟩⟩
    simp [hne, reportAt, Site.fresh, Site.inMode]

theorem checkAgrees_judged {c : Check} {passes : Bool} {otherwise : Judgement}
    (h : ∀ t : Traversal, ∃ code message,
      begin? b test t c d = settle (t.judge passes otherwise code message))
      (hne : otherwise ≠ .pass) :
    CheckAgrees b test program plain (passes = true) (otherwise = .abort → passes = true)
      s c d := by
  refine checkAgrees_settled hne fun mode => ?_
  obtain ⟨code, message, begun⟩ := h (s.inMode mode).fresh
  refine ⟨[], code, message, begun.trans ?_⟩
  cases passes <;> rfl

theorem checksAgree_abort {c : Check} {passes : Bool} (h : ∀ t : Traversal, ∃ code message,
      begin? b test t c d = settle (t.judge passes .abort code message)) :
    ChecksAgree b test program plain (passes = true) (passes = true) [c] d :=
  checksAgree_one fun _ => (checkAgrees_judged h nofun).mono id fun passed => passed rfl

theorem checksAgree_fail {c : Check} {passes : Bool} (h : ∀ t : Traversal, ∃ code message,
      begin? b test t c d = settle (t.judge passes .fail code message)) :
    ChecksAgree b test program plain True True [c] d :=
  checksAgree_one fun _ => (checkAgrees_judged h nofun).mono (fun _ => trivial) fun _ => trivial

theorem checkAgrees_passes {c : Check}
    (h : ∀ t : Traversal, begin? b test t c d = (t, .settled .pass)) :
    CheckAgrees b test program plain True True s c d := by
  intro f g r hf hg applied
  rw [evalCheck, hf, h] at applied
  cases applied
  rw [evalCheck, hg, h]
  exact ⟨_, rfl, by simp [Site.fresh], fun _ => ⟨rfl, trivial⟩, by simp, fun _ => trivial,
    fun _ _ => ⟨rfl, rfl⟩⟩

/-- If running a frame to apply it ends, so does running it to allow the value, and the two
agree. -/
def FrameAgrees (b : Bindings) (program : Site → ProgramFrame → Option (Report Verdict))
    (plain facts : Prop) (child : Frame) : Prop :=
  ∀ (s : Site) (r : Report Done), evalFrame b program s.applying child = some r →
    ∃ u, evalFrame b program s.allowing child = some u ∧ ∃ v w, r.value = .value v ∧
      u.value = .value w ∧ Concord plain facts v r.problems w

/-- A check of the value, or of one under a key, by another frame. -/
theorem checkAgrees_descend {c : Check} {child : Frame} {pending : Pending} (there : Site)
    (waits : pending = .whole ∨ ∃ name, pending = .key name)
    (h : ∀ mode, ∃ t, begin? b test (s.inMode mode).fresh c d = (t, .descend child pending) ∧
      t.problems = [] ∧ t.site = there.inMode mode)
    (agrees : FrameAgrees b program plain facts child) :
    CheckAgrees b test program plain facts True s c d := by
  have absorbed (f : ProgramFrame) (v : Verdict) :
      ((absorb f pending (.value v)).2 = .pass ↔ v ≠ .failed) ∧
        (absorb f pending (.value v)).2 ≠ .abort ∧
        (v = .unchanged → (absorb f pending (.value v)).1.output = f.output) := by
    rcases waits with rfl | ⟨name, rfl⟩ <;> cases v <;> simp [absorb]
  intro f g r hf hg applied
  obtain ⟨t, begun, quiet, site⟩ := h .apply
  obtain ⟨t', begun', quiet', site'⟩ := h .allow
  rw [evalCheck, hf, Site.applying, begun] at applied
  rw [evalCheck, hg, Site.allowing, begun']
  simp only [site] at applied
  simp only [site']
  obtain ⟨a, ran, rfl⟩ := Option.map_eq_some_iff.mp applied
  obtain ⟨u, allowed, v, w, hv, hw, concord⟩ := agrees there a ran
  refine ⟨_, Option.map_eq_some_iff.mpr ⟨u, allowed, rfl⟩, ?_⟩
  simp only [hv, hw, quiet, List.append_nil]
  obtain ⟨passes, going, same⟩ := absorbed f v
  obtain ⟨passes', -, -⟩ := absorbed g w
  have told : v = .failed ↔ a.problems ≠ [] := concord.told
  refine ⟨?_, fun h => ?_, fun h => absurd h going, fun _ => trivial, fun hp h => ?_⟩
  · rw [passes, ne_eq, told, not_not]
  · obtain ⟨allowed, facts⟩ := concord.passed (passes.mp h)
    exact ⟨passes'.mpr allowed, facts⟩
  · have unchanged : v = .unchanged := concord.plain hp (passes'.mp h)
    exact ⟨passes.mpr (by simp [unchanged]), same unchanged⟩

theorem Agrees.frameAgrees {p : Program} (h : Agrees program plain facts p d) (nested : Bool) :
    FrameAgrees b program plain facts (.start p d nested) := by
  intro s r applied
  obtain ⟨a, ran, rfl⟩ := Option.map_eq_some_iff.mp applied
  obtain ⟨u, allowed, concord⟩ := h s nested a ran
  exact ⟨u.map .value, Option.map_eq_some_iff.mpr ⟨u, allowed, rfl⟩, a.value, u.value, rfl,
    rfl, concord⟩

theorem checkAgrees_key {name : String} {required : Bool} {p : Program} {F : Json → Prop}
    (h : ∀ child, d.get? name = some child → Agrees program plain (F child) p child) :
    CheckAgrees b test program plain
      (required = true → ∃ child, d.get? name = some child ∧ F child) True s
        (.key name required p) d := by
  cases hc : d.get? name with
  | some child =>
    have descends : CheckAgrees b test program plain (F child) True s (.key name required p) d :=
      checkAgrees_descend (s.inside (.key name)) (Or.inr ⟨name, rfl⟩)
        (fun mode => ⟨((s.inMode mode).inside (.key name)).fresh, by
          simp only [begin?, beginKey, hc]
          rfl, rfl, rfl⟩)
        ((h child hc).frameAgrees true)
    exact descends.mono (fun holds _ => ⟨child, rfl, holds⟩) id
  | none =>
    have settles : CheckAgrees b test program plain ((!required) = true)
        (Judgement.fail = .abort → (!required) = true) s (.key name required p) d :=
      checkAgrees_settled (by simp) fun mode => by
        refine ⟨[name], .missing, "must be defined", ?_⟩
        cases required <;> simp [begin?, beginKey, hc, judgeMissing]
    refine settles.mono (fun optional needed => ?_) fun _ => trivial
    rw [needed] at optional
    cases optional

omit [Library] in
theorem evalJobs_agree {s : Site} {jobs : List Job}
    (h : ∀ job ∈ jobs, Agrees program plain facts job.program job.data) {j : Judgement}
    {patches : List (Segment × Json)} (patches' : List (Segment × Json)) {r : Report Done}
    (going : j ≠ .abort) (applied : evalJobs program s.applying jobs j patches = some r) :
    ∃ u, evalJobs program s.allowing jobs .pass patches' = some u ∧ ∃ j₁ ps j₂ ps₂,
      r.value = .children j₁ ps ∧ u.value = .children j₂ ps₂ ∧ j₁ ≠ .abort ∧
        (j₁ = .pass ↔ j = .pass ∧ r.problems = []) ∧ (r.problems = [] → j₂ = .pass) ∧
        (plain → j₂ = .pass → r.problems = [] ∧ ps = patches) := by
  induction jobs generalizing j patches patches' r with
  | nil =>
    cases applied
    exact ⟨_, rfl, j, patches, .pass, patches', rfl, rfl,
      going, by simp [Report.silent], fun _ => rfl,
      fun _ _ => ⟨rfl, rfl⟩⟩
  | cons job jobs ih =>
    rw [evalJobs, Report.bind_eq_some] at applied
    obtain ⟨a, v, first, others, rfl⟩ := applied
    obtain ⟨u, allowed, concord⟩ := h job List.mem_cons_self (s.inside job.segment) true a first
    have later (job' : Job) (hj : job' ∈ jobs) := h job' (List.mem_cons_of_mem _ hj)
    have next (hu : u.value ≠ .failed) : ∃ patches'', ∀ w,
        evalJobs program s.allowing jobs .pass patches'' = some w →
          evalJobs program s.allowing (job :: jobs) .pass patches' = some (u.after w) := by
      cases hv : u.value with
      | failed => exact absurd hv hu
      | unchanged =>
        exact ⟨patches', fun w hw =>
          Report.bind_eq_some.mpr ⟨u, w, allowed, by rw [hv]; exact hw, rfl⟩⟩
      | changed c =>
        exact ⟨_, fun w hw => Report.bind_eq_some.mpr
          ⟨u, w, allowed, by rw [hv]; exact hw, rfl⟩⟩
    by_cases failed : a.value = .failed
    · have told : a.problems ≠ [] := concord.told.mp failed
      rw [failed] at others
      have others : evalJobs program s.applying jobs .fail patches = some v := others
      by_cases refused : u.value = .failed
      · obtain ⟨-, -, j₁, ps, j₂, ps₂, hv, -, going, passes, -, -⟩ :=
          ih later patches' (by decide) others
        refine ⟨u.after (.silent (.children .fail [])),
          Report.bind_eq_some.mpr ⟨u, _, allowed, by rw [refused]; rfl, rfl⟩, j₁, ps, .fail,
            [], hv, rfl, going, ?_, ?_, by simp⟩
        · simp [passes, Report.after, told]
        · simp [Report.after, told]
      · obtain ⟨patches'', allows⟩ := next refused
        obtain ⟨w, hw, j₁, ps, j₂, ps₂, hv, hv', going, passes, -, -⟩ :=
          ih later patches'' (by decide) others
        refine ⟨u.after w, allows w hw, j₁, ps, j₂, ps₂, hv, hv', going, ?_, ?_,
          fun hp => ?_⟩
        · simp [passes, Report.after, told]
        · simp [Report.after, told]
        · have unchanged := concord.plain hp refused
          rw [failed] at unchanged
          cases unchanged
    · have quiet : a.problems = [] := by
        by_contra problems
        exact failed (concord.told.mpr problems)
      obtain ⟨patches'', allows⟩ := next (concord.passed failed).1
      obtain ⟨patched, others, same⟩ :
          ∃ patched, evalJobs program s.applying jobs j patched = some v ∧
          (a.value = .unchanged → patched = patches) := by
        cases hv : a.value with
        | failed => exact absurd hv failed
        | unchanged =>
          rw [hv] at others
          exact ⟨patches, others, fun _ => rfl⟩
        | changed c =>
          rw [hv] at others
          exact ⟨_, others, by simp⟩
      obtain ⟨w, hw, j₁, ps, j₂, ps₂, hv, hv', going', passes, passed, plain⟩ :=
        ih later patches'' going others
      refine ⟨u.after w, allows w hw, j₁, ps, j₂, ps₂, hv, hv', going', ?_, ?_,
        fun hp h => ?_⟩
      · simp [passes, Report.after, quiet]
      · simpa [Report.after, quiet] using passed
      · obtain ⟨silent, rfl⟩ := plain hp h
        exact ⟨by simp [Report.after, quiet, silent],
          same (concord.plain hp (concord.passed failed).1)⟩

theorem checkAgrees_jobs {c : Check} {jobs : List Job} (asked : List (Home × String))
    (h : ∀ mode, begin? b test (s.inMode mode).fresh c d =
      ({ (s.inMode mode).fresh with visited := asked } : Traversal).beginChildren jobs)
    (agrees : ∀ job ∈ jobs, Agrees program plain facts job.program job.data) :
    CheckAgrees b test program plain True True s c d := by
  intro f g r hf hg applied
  rw [evalCheck, hf, Site.applying, h] at applied
  rw [evalCheck, hg, Site.allowing, h]
  rcases jobs with _ | ⟨job, jobs⟩
  · cases applied
    exact ⟨_, rfl, by simp [Site.fresh], fun _ => ⟨rfl, trivial⟩, by simp, fun _ => trivial,
      fun _ _ => ⟨rfl, rfl⟩⟩
  · obtain ⟨a, ran, rfl⟩ := Option.map_eq_some_iff.mp applied
    obtain ⟨u, allowed, j₁, ps, j₂, ps₂, hv, hv', going, passes, passed, plain⟩ :=
      evalJobs_agree (s := s) (j := .pass) agrees [] (by decide) ran
    refine ⟨_, Option.map_eq_some_iff.mpr ⟨u, allowed, rfl⟩, ?_⟩
    simp only [hv, hv', absorb, Site.fresh, List.append_nil]
    refine ⟨?_, fun h => ?_, fun h => absurd h going, fun _ => trivial, fun hp h => ?_⟩
    · simpa using passes
    · exact ⟨passed (passes.mp h).2, trivial⟩
    · obtain ⟨quiet, rfl⟩ := plain hp h
      exact ⟨passes.mpr ⟨rfl, quiet⟩, rfl⟩

omit [Library] in
theorem program_of_mem_elementJobs {items : List Program} {rest : Option Program} {xs : List Json}
    {job : Job} (hj : job ∈ elementJobs items rest xs) :
    job.program ∈ items ∨ rest = some job.program := by
  obtain ⟨⟨x, i⟩, -, hx⟩ := List.mem_filterMap.mp hj
  obtain ⟨p, hp, rfl⟩ := Option.map_eq_some_iff.mp hx
  rw [Option.orElse_eq_orElse, Option.orElse_eq_or, Option.or_eq_some_iff] at hp
  exact hp.imp List.mem_of_getElem? And.right

/-- Whether the items are as many as the programs for them admit. -/
def fitsLength (items : List Program) (rest : Option Program) (xs : List Json) : Bool :=
  if rest.isSome then decide (items.length ≤ xs.length) else xs.length == items.length

theorem begin_elements {items : List Program} {rest : Option Program} {xs : List Json}
    (fits : fitsLength items rest xs = true) (t : Traversal) :
    begin? b test t (.elements items rest) (.array xs) = t.beginChildren
      (elementJobs items rest xs) := by
  rw [fitsLength] at fits
  simp only [begin?, beginElements, judgeLength, judge, fits, if_true]

theorem begin_elements_abort {items : List Program} {rest : Option Program} {xs : List Json}
    (fits : fitsLength items rest xs = false) (t : Traversal) : ∃ code message,
      begin? b test t (.elements items rest) (.array xs) =
        settle (t.judge false .abort code message) := by
  rw [fitsLength] at fits
  refine ⟨.range, Problem.must
    ("have length " ++ (if rest.isSome then "at least " else "exactly ") ++
    toString items.length) (toString xs.length), ?_⟩
  simp only [begin?, beginElements, judgeLength, judge, fits, Bool.false_eq_true, if_false]
  rfl

theorem checkAgrees_elements {items : List Program} {rest : Option Program}
    (h : ∀ p, p ∈ items ∨ rest = some p → ∀ child, Agrees program plain True p child) :
    CheckAgrees b test program plain True True s (.elements items rest) d := by
  cases d with
  | array xs =>
    have agrees (job : Job) (hj : job ∈ elementJobs items rest xs) :
        Agrees program plain True job.program job.data :=
      h job.program (program_of_mem_elementJobs hj) job.data
    cases fits : fitsLength items rest xs with
    | true => exact checkAgrees_jobs [] (fun mode => begin_elements fits _) agrees
    | false => exact (checkAgrees_judged (begin_elements_abort fits) nofun).mono nofun nofun
  | _ => exact checkAgrees_passes fun t => rfl

omit [Library] in
theorem program_of_mem_indexJobs {key value : Program} {named : List String}
    {entries : List (String × Json)} {jobs : List Job} {asked : List (Home × String)}
    (h : indexJobs test key value named entries = some (jobs, asked)) {job : Job}
    (hj : job ∈ jobs) : job.program = value := by
  induction entries generalizing jobs asked with
  | nil =>
    cases h
    cases hj
  | cons e entries ih =>
    obtain ⟨name, child⟩ := e
    rw [indexJobs] at h
    split at h
    · exact ih h hj
    · simp only [Option.bind_eq_bind, Option.bind_eq_some_iff] at h
      obtain ⟨answer, -, ⟨others, asked'⟩, found, h⟩ := h
      split at h
      · cases h
        rcases List.mem_cons.mp hj with rfl | hj
        · rfl
        · exact ih found hj
      · cases h
        exact ih found hj

theorem checkAgrees_index {key value : Program} {named : List String}
    (h : ∀ child, Agrees program plain True value child) :
    CheckAgrees b test program plain True True s (.index key value named) d := by
  cases d with
  | object entries =>
    cases found : indexJobs test key value named entries with
    | none =>
      intro f g r hf hg applied
      simp only [evalCheck, hf, begin?, beginIndex, found] at applied
      cases applied
    | some jobs =>
      obtain ⟨jobs, asked⟩ := jobs
      have agrees (job : Job) (hj : job ∈ jobs) :
          Agrees program plain True job.program job.data := by
        rw [program_of_mem_indexJobs found hj]
        exact h job.data
      refine checkAgrees_jobs asked (fun mode => ?_) agrees
      simp only [begin?, beginIndex, found]
      simp [Site.fresh]
  | _ => exact checkAgrees_passes fun t => rfl

omit [Library] in
/-- To apply branches in order may go on where to allow the value stops. -/
theorem evalBranches_agree {expected : String} {ps : List Program}
    (h : ∀ p ∈ ps, Agrees program plain facts p d) {r : Report Done}
    (applied : evalBranches program s.applying d expected ps = some r) :
    ∃ u, evalBranches program s.allowing d expected ps = some u ∧
      ∃ v w, r.value = .value v ∧
      u.value = .value w ∧ Concord plain facts v r.problems w := by
  induction ps generalizing r with
  | nil =>
    cases applied
    refine ⟨_, rfl, .failed, .failed, rfl, rfl, ?_, fun h => absurd rfl h,
      fun _ h => absurd rfl h⟩
    simp [report, reportAt, Site.fresh, Site.applying, Site.inMode]
  | cons p ps ih =>
    rw [evalBranches, Report.bind_eq_some] at applied
    obtain ⟨a, v, first, others, rfl⟩ := applied
    obtain ⟨a, ran, rfl⟩ := Option.map_eq_some_iff.mp first
    obtain ⟨u, allowed, concord⟩ := h p List.mem_cons_self s false a ran
    have stops (hu : u.value ≠ .failed) : evalBranches program s.allowing d expected (p :: ps) =
        some ⟨.value u.value, [], u.visited⟩ := by
      rw [evalBranches, allowed]
      cases hv : u.value with
      | failed => exact absurd hv hu
      | unchanged => simp [Report.bind, hv, Report.after, Report.silent]
      | changed c => simp [Report.bind, hv, Report.after, Report.silent]
    by_cases failed : a.value = .failed
    · rw [failed] at others
      obtain ⟨w, hw, x, y, hx, hy, concord'⟩ :=
        ih (fun q hq => h q (List.mem_cons_of_mem _ hq)) others
      have same : ((⟨a.value, [], a.visited⟩ : Report Verdict).after v).problems = v.problems :=
        List.append_nil _
      rw [same]
      by_cases refused : u.value = .failed
      · refine ⟨(⟨u.value, [], u.visited⟩ : Report Verdict).after w, ?_, x, y, hx, hy,
          concord'⟩
        rw [evalBranches, allowed]
        refine Report.bind_eq_some.mpr ⟨_, w, rfl, ?_, rfl⟩
        simp only [refused]
        exact hw
      · refine ⟨_, stops refused, x, u.value, hx, rfl, concord'.told, fun passed => ?_,
          fun hp _ => ?_⟩
        · exact ⟨refused, (concord'.passed passed).2⟩
        · have unchanged := concord.plain hp refused
          rw [failed] at unchanged
          cases unchanged
    · have quiet : a.problems = [] := by
        by_contra problems
        exact failed (concord.told.mpr problems)
      obtain rfl : v = .silent (.value a.value) := by
        cases hv : a.value with
        | failed => exact absurd hv failed
        | unchanged =>
          rw [hv] at others
          exact (Option.some.inj others).symm
        | changed c =>
          rw [hv] at others
          exact (Option.some.inj others).symm
      refine ⟨_, stops (concord.passed failed).1, a.value, u.value, rfl, rfl, ?_⟩
      rw [quiet] at concord
      exact concord

/-- The frame for the branches that a value is led to. -/
def branchesFrame (d : Json) (expected : String) : List Program → Frame
  | [only] => .start only d false
  | programs => .branches ⟨programs, d, none, expected⟩

theorem branchesFrame_agrees {expected : String} {ps : List Program}
    (h : ∀ p ∈ ps, Agrees program plain facts p d) :
    FrameAgrees b program plain facts (branchesFrame d expected ps) := by
  have several : FrameAgrees b program plain facts (.branches ⟨ps, d, none, expected⟩) :=
    fun s r applied => evalBranches_agree h applied
  match ps with
  | [] => exact several
  | [p] => exact (h p List.mem_cons_self).frameAgrees false
  | p :: q :: ps => exact several

theorem begin_union {t u : Traversal} {dispatch : Dispatch} {fallback ps : List Program}
    {expected : String} (h : t.route fallback d dispatch = (u, some ps)) :
    begin? b test t (.union dispatch fallback expected) d =
      (u, .descend (branchesFrame d expected ps) .whole) := by
  simp only [begin?, beginUnion, h]
  rcases ps with _ | ⟨p, _ | ⟨q, ps⟩⟩ <;> rfl

/-- Where the data have nothing to look at, to apply a union tries all branches, none of which
may pass. -/
theorem checkAgrees_union {dispatch : Dispatch} {fallback : List Program} {expected : String}
    {found : Option (List Program)} {dest : Destination} (leads : dispatch.Leads d dest)
    (led : dest.branches? = found)
    (h : ∀ ps, found = some ps → ∀ p ∈ ps, Agrees program plain True p d)
    (none_passes : found = none → ∀ p ∈ fallback, Agrees program plain False p d) :
    CheckAgrees b test program plain True True s (.union dispatch fallback expected) d := by
  have routed := leads.route_eq
  subst led
  cases dest with
  | branches ps =>
    exact checkAgrees_descend s (Or.inl rfl)
      (fun mode => ⟨_, begin_union (routed _ _), rfl, rfl⟩) (branchesFrame_agrees (h ps rfl))
  | refusal probe expected' =>
    have settles : CheckAgrees b test program plain (false = true)
        (Judgement.fail = .abort → false = true) s (.union dispatch fallback expected) d :=
      checkAgrees_settled (by simp) fun mode =>
        ⟨probe.path, (probe.problem expected' d).1, (probe.problem expected' d).2, by
          simp [begin?, beginUnion, routed, Destination.reached]⟩
    exact settles.mono (by simp) fun _ => trivial
  | fallback =>
    intro f g r hf hg applied
    have begun : begin? b test s.applying.fresh (.union dispatch fallback expected) d =
        (s.applying.fresh, .descend (branchesFrame d expected fallback) .whole) :=
      begin_union (routed s.applying.fresh fallback)
    have refuses : begin? b test s.allowing.fresh (.union dispatch fallback expected) d =
        (s.allowing.fresh, .settled .fail) := by
      simp only [begin?, beginUnion, routed]
      rfl
    rw [evalCheck, hf, begun] at applied
    rw [evalCheck, hg, refuses]
    obtain ⟨a, ran, rfl⟩ := Option.map_eq_some_iff.mp applied
    have agrees : FrameAgrees b program plain False (branchesFrame d expected fallback) :=
      branchesFrame_agrees (none_passes rfl)
    obtain ⟨_, -, v, _, hv, -, concord⟩ := agrees s a ran
    have failed : v = .failed := by
      by_contra passed
      exact (concord.passed passed).2
    have told : a.problems ≠ [] := concord.told.mp failed
    refine ⟨_, rfl, ?_⟩
    simp only [hv, failed, absorb]
    exact ⟨by simp [told, Site.fresh], by simp, by simp, fun _ => trivial, by simp⟩

/-- An alias is refused, or its target is started one level deeper. -/
theorem begin_deferred (b : Bindings) (test : Program → String → Option KeyTest) (name : String)
    (home : Home) (s : Site) (d : Json) :
    (∃ code message, ∀ mode, begin? b test (s.inMode mode).fresh (.deferred name home) d =
        ((s.inMode mode).fresh.report code message, .settled .fail)) ∨
      ∃ n, b.node? home name = some n ∧ (∀ max, s.maxDepth = some max → s.depth < max) ∧
        ∀ mode, begin? b test (s.inMode mode).fresh (.deferred name home) d =
          ({ (s.inMode mode).fresh with depth := s.depth + 1, visited := [(home, name)] },
            .descend (.target (some n.compile) d) .whole) := by
  have followed (shallow : ∀ max, s.maxDepth = some max → s.depth < max)
      (h : ∀ mode, begin? b test (s.inMode mode).fresh (.deferred name home) d =
        follow b (s.inMode mode).fresh name home d) :
      (∃ code message, ∀ mode, begin? b test (s.inMode mode).fresh (.deferred name home) d =
          ((s.inMode mode).fresh.report code message, .settled .fail)) ∨
        ∃ n, b.node? home name = some n ∧ (∀ max, s.maxDepth = some max → s.depth < max) ∧
          ∀ mode, begin? b test (s.inMode mode).fresh (.deferred name home) d =
            ({ (s.inMode mode).fresh with depth := s.depth + 1, visited := [(home, name)] },
              .descend (.target (some n.compile) d) .whole) := by
    cases found : b.node? home name with
    | none => exact Or.inl ⟨_, _, fun mode => by rw [h, follow, found]⟩
    | some n =>
      refine Or.inr ⟨n, rfl, shallow, fun mode => ?_⟩
      rw [h, follow, found]
      rfl
  have limit (mode : Mode) : (s.inMode mode).fresh.maxDepth = s.maxDepth := rfl
  have depth (mode : Mode) : (s.inMode mode).fresh.depth = s.depth := rfl
  cases capped : s.maxDepth with
  | none =>
    rw [capped] at followed
    exact followed (by simp) fun mode => by simp only [begin?, beginDeferred, limit, capped]
  | some max =>
    rw [capped] at followed
    by_cases deep : max ≤ s.depth
    · exact Or.inl ⟨.depth, depthMessage max name, fun mode => by
        simp only [begin?, beginDeferred, limit, capped, depth, if_pos deep]⟩
    · refine followed (fun max' h => ?_) fun mode => by
        simp only [begin?, beginDeferred, limit, capped, depth, if_neg deep]
      cases h
      exact Nat.lt_of_not_le deep

theorem checkAgrees_deferred {name : String} {home : Home}
    (h : ∀ n, b.node? home name = some n → Agrees program plain True n.compile d) :
    CheckAgrees b test program plain True True s (.deferred name home) d := by
  rcases begin_deferred b test name home s d with ⟨code, message, refused⟩ | ⟨n, found, -,
    followed⟩
  · have settles : CheckAgrees b test program plain (false = true)
        (Judgement.fail = .abort → false = true) s (.deferred name home) d :=
      checkAgrees_settled nofun fun mode => ⟨[], code, message, refused mode⟩
    exact settles.mono nofun fun _ => trivial
  · refine checkAgrees_descend { s with depth := s.depth + 1 } (Or.inl rfl)
      (fun mode => ⟨_, followed mode, rfl, rfl⟩) fun s r applied => ?_
    obtain ⟨a, ran, rfl⟩ := Option.map_eq_some_iff.mp applied
    obtain ⟨u, allowed, concord⟩ := h n found s false a ran
    exact ⟨u.map .value, Option.map_eq_some_iff.mpr ⟨u, allowed, rfl⟩, a.value, u.value, rfl,
      rfl, concord⟩

theorem runSteps_told (b : Bindings) (s : Site) (v : Json) (steps : List Step) :
    (runSteps b s.applying.fresh v steps).2 = .failed ↔
      (runSteps b s.applying.fresh v steps).1.problems ≠ [] := by
  induction steps generalizing v with
  | nil => simp [runSteps, Site.fresh]
  | cons step steps ih =>
    simp only [runSteps]
    split
    · exact ih _
    · simp [report, reportAt, Site.fresh, Site.applying, Site.inMode]

/-- To apply a morph fails with its input, or with a problem of one of its steps. -/
theorem evalSteps_told (b : Bindings) (s : Site) (steps : List Step) (d : Json) (v : Verdict) :
    ∃ w, (evalSteps b s.applying steps d v).value = .value w ∧
      (w = .failed ↔ v = .failed ∨ (evalSteps b s.applying steps d v).problems ≠ []) := by
  cases v with
  | failed => exact ⟨.failed, rfl, by simp⟩
  | unchanged =>
    exact ⟨_, rfl, (runSteps_told b s d steps).trans
      (by simp [evalSteps, Site.applying, Site.inMode])⟩
  | changed w =>
    exact ⟨_, rfl, (runSteps_told b s w steps).trans
      (by simp [evalSteps, Site.applying, Site.inMode])⟩

theorem checkAgrees_morph {p : Program} {steps : List Step} (h : Agrees program plain facts p d)
    (morphs : ¬ plain) : CheckAgrees b test program plain facts True s (.morph p steps) d := by
  refine checkAgrees_descend s (Or.inl rfl) (fun mode => ⟨_, rfl, rfl, rfl⟩)
    fun s r applied => ?_
  rw [evalFrame, Report.bind_eq_some] at applied
  obtain ⟨a, v, first, ended, rfl⟩ := applied
  cases ended
  obtain ⟨u, allowed, concord⟩ := h s false a first
  have allows : evalFrame b program s.allowing (.morph (some p) steps d) =
      some (u.after (.silent (.value u.value))) := by
    rw [evalFrame, Report.bind_eq_some]
    exact ⟨u, _, allowed, rfl, rfl⟩
  obtain ⟨w, hw, failed⟩ := evalSteps_told b s steps d a.value
  refine ⟨_, allows, w, u.value, hw, rfl, ?_, fun passed => ?_, fun hp => absurd hp morphs⟩
  · rw [failed, concord.told, Report.after_told]
  · exact concord.passed fun h => passed (failed.mpr (Or.inl h))

end

end Traversal

end SchemaAlgebra
