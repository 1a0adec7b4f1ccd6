import SchemaAlgebra.Proofs.Deferrals
import SchemaAlgebra.Proofs.Likeness
import SchemaAlgebra.Proofs.Simulation

/-!
# Resolving in any order

An alias that is named while it is still being resolved is deferred, so what becomes of an alias
depends on what was resolved before. It does not where no two different aliases refer to each
other: then an alias is always resolved to the node that it has when it is read alone.
-/
namespace SchemaAlgebra

open Parsing

namespace Declarations

/-- The definition of the first alias names the second one. -/
def Refers (d : Declarations) (x y : String) : Prop :=
  ∃ definition, Entries.get? x d.aliases = some definition ∧
    y ∈ Definition.names definition ∧ Entries.contains y d.aliases = true

/-- The second alias is reached from the first one. -/
def Leads (d : Declarations) : String → String → Prop := Relation.ReflTransGen d.Refers

/-- No two different aliases that are reached from the alias lead to each other. -/
def IsOrderly (d : Declarations) (name : String) : Prop :=
  ∀ x y, d.Leads name x → d.Leads x y → d.Leads y x → x = y

/-- No more than the given number of different aliases follow one another. -/
def Fits (d : Declarations) : Nat → String → Prop
  | 0, _ => False
  | n + 1, x => ∀ y, d.Refers x y → y ≠ x → d.Fits n y

variable {d : Declarations} {x y name : String}

theorem IsOrderly.leads (h : d.IsOrderly x) (leads : d.Leads x y) : d.IsOrderly y :=
  fun a b there => h a b (leads.trans there)

theorem IsOrderly.not_leads (h : d.IsOrderly x) (refers : d.Refers x y) (other : y ≠ x) :
    ¬d.Leads y x :=
  fun back => other (h x y .refl (.single refers) back).symm

/-- What an alias names leads neither back to the alias nor to what the alias does not lead to. -/
theorem IsOrderly.away (h : d.IsOrderly x) {busy : Finset String}
    (away : ∀ b ∈ busy, ¬d.Leads x b) (refers : d.Refers x y) (other : y ≠ x) :
    ∀ b ∈ insert x busy, ¬d.Leads y b := by
  refine (Finset.forall_mem_insert _ _ _).mpr ⟨h.not_leads refers other, fun b hb leads => ?_⟩
  exact away b hb (.head refers leads)

/-- Aliases are in order where every reference to another one leads down. -/
theorem isOrderly_of_rank (rank : String → Nat)
    (down : ∀ e ∈ d.aliases, ∀ y ∈ Definition.names e.2,
    Entries.contains y d.aliases = true → e.1 = y ∨ rank y < rank e.1) (name : String) :
    d.IsOrderly name := by
  have below {x y : String} (leads : d.Leads x y) : x = y ∨ rank y < rank x := by
    induction leads with
    | refl => exact .inl rfl
    | tail _ refers ih =>
      obtain ⟨definition, declared, named, known⟩ := refers
      rcases down _ (Entries.mem_of_get? declared) _ named known with rfl | further
      · exact ih
      · rcases ih with rfl | ih
        · exact .inr further
        · exact .inr (further.trans ih)
  intro x y _ there back
  rcases below there with same | less
  · exact same
  · rcases below back with same | less'
    · exact same.symm
    · omega

theorem contains_of_get? {definition : Json} (h : Entries.get? name d.aliases = some definition) :
    Entries.contains name d.aliases = true := by
  rw [Entries.contains, h]
  rfl

theorem Leads.contains (leads : d.Leads x y) (declared : Entries.contains x d.aliases = true) :
    Entries.contains y d.aliases = true := by
  induction leads with
  | refl => exact declared
  | tail _ refers _ => exact refers.choose_spec.2.2

/-- By induction on the number: another alias does not lead back, so there is one less to be reached
from it. -/
theorem fits_of_card {n : Nat} {S : Finset String} (small : S.card ≤ n) (orderly : d.IsOrderly x)
    (reached : ∀ y, d.Leads x y → y ∈ S) : d.Fits n x := by
  induction n generalizing S x with
  | zero =>
    have empty := Finset.card_eq_zero.mp (Nat.le_zero.mp small)
    exact absurd (empty ▸ reached x .refl) (Finset.notMem_empty x)
  | succ n ih =>
    intro y refers other
    have here : x ∈ S := reached x .refl
    refine ih (S := S.erase x) ?_ (orderly.leads (.single refers)) fun z leads => ?_
    · rw [Finset.card_erase_of_mem here]
      omega
    · refine Finset.mem_erase.mpr ⟨?_, reached z (.head refers leads)⟩
      rintro rfl
      exact orderly.not_leads refers other leads

/-- The aliases that are not being resolved are enough to be reached from one that they do not lead
to. -/
theorem fits_of_length {n : Nat} (busy : Finset String)
    (declared : Entries.contains x d.aliases = true)
    (subset : ∀ b ∈ busy, Entries.contains b d.aliases = true)
    (enough : d.aliases.length ≤ n + busy.card) (orderly : d.IsOrderly x)
    (away : ∀ b ∈ busy, ¬d.Leads x b) : d.Fits n x := by
  have member {y : String} : y ∈ (Entries.keys d.aliases).toFinset ↔
      Entries.contains y d.aliases = true := by
    rw [Entries.contains, Option.isSome_iff_ne_none, Ne, Entries.get?_eq_none]
    simp [Entries.keys]
  refine fits_of_card (S := (Entries.keys d.aliases).toFinset \ busy) ?_ orderly fun y leads => ?_
  · have inside : busy ⊆ (Entries.keys d.aliases).toFinset :=
      fun b hb => member.mpr (subset b hb)
    have all : (Entries.keys d.aliases).toFinset.card ≤ d.aliases.length :=
      (List.toFinset_card_le _).trans (by simp [Entries.keys])
    rw [Finset.card_sdiff_of_subset inside]
    omega
  · refine Finset.mem_sdiff.mpr
      ⟨member.mpr (leads.contains declared), fun hb => away y hb leads⟩

end Declarations

variable [Library]

namespace Scope

/-- The node of an alias without any memory: every other alias is read anew wherever it is named,
and only a reference of an alias to itself is deferred. -/
def resolveAlone (home : Nat) (d : Declarations) : Nat → String → Parsing Node
  | 0, name => fail (.unresolvable name)
  | n + 1, name =>
    match Entries.get? name d.aliases with
    | none => fail (.unresolvable name)
    | some definition =>
      parseAlias (lookupWith home d fun other =>
        if other = name then Parsing.build (Traced.build (.of (.deferred name (some home))))
        else resolveAlone home d n other) name definition

/-- The node is the one that the alias has when it is read alone. -/
def IsGenuine (d : Declarations) (name : String) (m : Node) : Prop :=
  ∀ home n, d.Fits n name →
    ∀ s, ∃ b t, (resolveAlone home d n name).run.run s = (.ok b, t) ∧ m.erase = b.erase

/-- Certain aliases are being resolved, and the others that are in order and resolved have genuine
nodes. -/
structure Remembers (d : Declarations) (busy : Finset String) (s : ScopeState) : Prop where
  genuine : ∀ name m, Entries.get? name s.resolutions = some (.resolved m) →
    d.IsOrderly name → IsGenuine d name m
  busy : ∀ name, Entries.get? name s.resolutions = some .inProgress ↔ name ∈ busy

variable {d : Declarations} {busy : Finset String} {home home' : Nat} {name : String}

theorem remembers_ofResolutions : IsOfResolutions (Remembers d busy) := fun _ _ same h =>
  ⟨same ▸ h.genuine, same ▸ h.busy⟩

theorem Remembers.begun {s : ScopeState} (h : Remembers d busy s) (name : String) :
    Remembers d (insert name busy) (Scope.begun s name) where
  genuine x m found := by
    simp only [Scope.begun, Entries.get?_insert] at found
    split_ifs at found
    · cases found
    · exact h.genuine x m found
  busy x := by
    simp only [Scope.begun, Entries.get?_insert, Finset.mem_insert]
    split_ifs with same
    · simp [same]
    · rw [h.busy x]
      simp [same]

theorem Remembers.settled {s : ScopeState} (h : Remembers d (insert name busy) s)
    (idle : name ∉ busy) {m : Node} (genuine : d.IsOrderly name → IsGenuine d name m) :
    Remembers d busy (Scope.settled s name m) where
  genuine x k found orderly := by
    simp only [Scope.settled, Entries.get?_insert] at found
    split_ifs at found with same
    · cases found
      subst same
      exact genuine orderly
    · exact h.genuine x k found orderly
  busy x := by
    simp only [Scope.settled, Entries.get?_insert]
    split_ifs with same
    · subst same
      simp [idle]
    · rw [h.busy x, Finset.mem_insert]
      simp [same]

theorem parseAlias_simulates {I J : ScopeState → Prop} {lookup lookup' : Lookup} (name : String)
    {definition : Json} (lookups : lookup.Simulates I J (· ∈ Definition.names definition)
      lookup') :
    Parsing.Simulates I J (fun a b => a.erase = b.erase) (parseAlias lookup name definition)
      (parseAlias lookup' name definition) := by
  refine (Definition.parse_simulates lookups definition fun _ named => named).bind
    fun n m same => ?_
  have references : n.references = m.references := by
    have blind (k : Node) : k.erase.references = k.references :=
      Node.fold_erase (fun c => by cases c <;> rfl) k
    rw [← blind n, same, blind m]
  rw [references]
  exact .ite (fun _ => .fail _ _) fun _ => .pure same

omit [Library] in
/-- To find the same aliases it is enough to resolve them alike. -/
theorem lookupWith_simulates {I J : ScopeState → Prop} (hI : IsOfResolutions I)
    (hJ : IsOfResolutions J)
    {known : String → Prop} {resolve resolve' : String → Parsing Node}
    (resolves : ∀ y, known y → Entries.contains y d.aliases = true →
      Parsing.Simulates I J (fun a b => a.erase = b.erase) (resolve y) (resolve' y)) :
    (lookupWith home d resolve).Simulates I J known (lookupWith home' d resolve') where
  aliases y hy :=
    .ite (fun declared => (resolves y hy declared).map fun _ _ same => congrArg some same)
      fun _ => .pure rfl
  morphs y := by
    simp only [lookupWith]
    split_ifs <;> rfl
  ofResolutions := hI
  ofResolutions' := hJ

omit [Library] in
theorem result_deferred (home : Nat) (name : String) :
    Result (Parsing.build (Traced.build (.of (.deferred name (some home)))))
      (some (.of (.deferred name none))) :=
  result_build fun _ faithful => (Node.same_iff.mp (faithful _)).symm

omit [Library] in
theorem result_deferring (home : Nat) (name : String) :
    Result (deferring home name) (some (.of (.deferred name none))) :=
  fun s => result_deferred home name (s.note (.deferred name))

omit [Library] in
theorem quiet_deferring (home : Nat) (name : String) : Quiet (deferring home name) :=
  fun s => quiet_build _ (s.note (.deferred name))

theorem resolveUpTo_new {depth : Nat} {definition : Json} {s : ScopeState}
    (unknown : Entries.get? name s.resolutions = none)
    (declared : Entries.get? name d.aliases = some definition) :
    (resolveUpTo home d (depth + 1) name).run.run s =
      (resolveNew (lookupWith home d (resolveUpTo home d depth)) name definition).run.run s := by
  rw [resolveUpTo, resolveWith_run, unknown, declared]

theorem resolveUpTo_busy {depth : Nat} {s : ScopeState}
    (known : Entries.get? name s.resolutions = some .inProgress) :
    (resolveUpTo home d depth name).run.run s = (deferring home name).run.run s := by
  cases depth <;> rw [resolveUpTo, resolveWith_run, known]

/-- What resolving an alias can do: find it resolved, defer it, or read its definition for the first
time. -/
theorem resolveUpTo_cases {depth : Nat} {s t : ScopeState} {m : Node}
    (ran : (resolveUpTo home d depth name).run.run s = (.ok m, t)) :
    (Entries.get? name s.resolutions = some (.resolved m) ∧ t = s) ∨
    (Entries.get? name s.resolutions = some .inProgress ∧ t.resolutions = s.resolutions) ∨
    ∃ k definition u, depth = k + 1 ∧ Entries.get? name s.resolutions = none ∧
      Entries.get? name d.aliases = some definition ∧
      (parseAlias (lookupWith home d (resolveUpTo home d k)) name definition).run.run
        (begun s name) = (.ok m, u) ∧ t = settled u name m := by
  cases known : Entries.get? name s.resolutions with
  | some r =>
    cases r with
    | resolved k =>
      rw [resolveUpTo_of_resolved known] at ran
      cases ran
      exact .inl ⟨rfl, rfl⟩
    | inProgress =>
      rw [resolveUpTo_busy known] at ran
      have quiet := quiet_deferring home name s
      rw [ran] at quiet
      exact .inr (.inl ⟨rfl, quiet⟩)
  | none =>
    cases declared : Entries.get? name d.aliases with
    | none =>
      cases depth <;> rw [resolveUpTo, resolveWith_run, known, declared] at ran <;> cases ran
    | some definition =>
      cases depth with
      | zero =>
        rw [resolveUpTo, resolveWith_run, known, declared] at ran
        cases ran
      | succ depth =>
        rw [resolveUpTo_new known declared] at ran
        cases read : (parseAlias (lookupWith home d (resolveUpTo home d depth)) name
          definition).run.run
            (begun s name) with
        | mk o u =>
          cases o with
          | error e =>
            rw [resolveNew_error read] at ran
            cases ran
          | ok k =>
            rw [resolveNew_ok read] at ran
            cases ran
            exact .inr (.inr ⟨depth, definition, u, rfl, rfl, rfl, read, rfl⟩)

theorem resolveAlone_succ {n : Nat} {definition : Json}
    (declared : Entries.get? name d.aliases = some definition) :
    resolveAlone home d (n + 1) name = parseAlias (lookupWith home d fun other =>
      if other = name then Parsing.build (Traced.build (.of (.deferred name (some home))))
      else resolveAlone home d n other) name definition := by
  rw [resolveAlone, declared]

/-- The aliases named in a definition are resolved as they are read alone, if the others that it
names are. -/
theorem parse_resolved_alone {depth n : Nat} {definition : Json}
    (declared : Entries.get? name d.aliases = some definition)
    (others : ∀ y, d.Refers name y → y ≠ name →
      Parsing.Simulates (Remembers d (insert name busy)) (fun _ => True)
      (fun a b => a.erase = b.erase) (resolveUpTo home d depth y) (resolveAlone home' d n y)) :
    Parsing.Simulates (Remembers d (insert name busy)) (fun _ => True)
      (fun a b => a.erase = b.erase)
        (parseAlias (lookupWith home d (resolveUpTo home d depth)) name definition)
      (resolveAlone home' d (n + 1) name) := by
  rw [resolveAlone_succ declared]
  refine parseAlias_simulates name
    (lookupWith_simulates remembers_ofResolutions (fun _ _ _ _ => trivial) ?_)
  intro y hy known
  by_cases same : y = name
  · subst same
    rw [if_pos rfl]
    intro s a t hs ran
    rw [resolveUpTo_busy ((hs.busy y).mpr (Finset.mem_insert_self _ _))] at ran
    have deferred := Mirrors.of_result (result_deferring home y) (result_deferred home' y)
        (quiet_deferring home y) (quiet_build _)
    exact deferred.simulates remembers_ofResolutions (fun _ _ _ _ => trivial) s a t hs ran
  · rw [if_neg same]
    exact others y ⟨definition, declared, hy, known⟩ same

theorem parse_alone_resolved {depth n : Nat} {definition : Json}
    (declared : Entries.get? name d.aliases = some definition)
    (others : ∀ y, d.Refers name y → y ≠ name →
      Parsing.Simulates (fun _ => True) (Remembers d (insert name busy))
      (fun a b => a.erase = b.erase) (resolveAlone home' d n y) (resolveUpTo home d depth y)) :
    Parsing.Simulates (fun _ => True) (Remembers d (insert name busy))
      (fun a b => a.erase = b.erase) (resolveAlone home' d (n + 1) name)
      (parseAlias (lookupWith home d (resolveUpTo home d depth)) name definition) := by
  rw [resolveAlone_succ declared]
  refine parseAlias_simulates name
    (lookupWith_simulates (fun _ _ _ _ => trivial) remembers_ofResolutions ?_)
  intro y hy known
  by_cases same : y = name
  · subst same
    rw [if_pos rfl]
    intro s a t hs ran
    have deferred := Mirrors.of_result (result_deferred home' y) (result_deferring home y)
        (quiet_build _) (quiet_deferring home y)
    have kept : IsOfResolutions (Remembers d (insert y busy)) := remembers_ofResolutions
    obtain ⟨-, related, again⟩ := deferred.simulates (fun _ _ _ _ => trivial) kept s a t hs ran
    refine ⟨trivial, related, fun s' hs' => ?_⟩
    rw [resolveUpTo_busy ((hs'.busy y).mpr (Finset.mem_insert_self _ _))]
    exact again s' hs'
  · rw [if_neg same]
    exact others y ⟨definition, declared, hy, known⟩ same

/-- By induction on the depth: an alias in order is resolved to its genuine node. -/
theorem resolved_alone (home home' : Nat) {depth n : Nat} (orderly : d.IsOrderly name)
    (away : ∀ b ∈ busy, ¬d.Leads name b) (fits : d.Fits depth name) (fits' : d.Fits n name) :
    Parsing.Simulates (Remembers d busy) (fun _ => True) (fun a b => a.erase = b.erase)
      (resolveUpTo home d depth name) (resolveAlone home' d n name) := by
  induction depth generalizing name busy n home' with
  | zero => cases fits
  | succ depth ih =>
    intro s m t hs ran
    have idle : name ∉ busy := fun hb => away name hb .refl
    obtain ⟨known, rfl⟩ | ⟨known, -⟩ | ⟨k, definition, u, same, -, declared, read,
        rfl⟩ := resolveUpTo_cases ran
    · have genuine := hs.genuine name m known orderly home' n fits'
      refine ⟨hs, ?_, fun s' _ => ?_⟩
      · obtain ⟨b, -, -, same⟩ := genuine t
        exact ⟨b, same⟩
      · obtain ⟨b, t', ran', same⟩ := genuine s'
        exact ⟨b, t', ran', trivial, same⟩
    · exact absurd ((hs.busy name).mp known) idle
    · cases same
      have parsed (home' n : Nat) (fits' : d.Fits n name) :
          Parsing.Simulates (Remembers d (insert name busy))
          (fun _ => True) (fun a b => a.erase = b.erase)
          (parseAlias (lookupWith home d (resolveUpTo home d depth)) name definition)
            (resolveAlone home' d n name) := by
        cases n with
        | zero => cases fits'
        | succ n =>
          exact parse_resolved_alone declared fun y refers other =>
            ih home' (orderly.leads (.single refers)) (orderly.away away refers other)
              (fits y refers other) (fits' y refers other)
      have genuine : IsGenuine d name m := fun home' n fits' s' => by
        obtain ⟨-, -, again⟩ := parsed home' n fits' _ m u (hs.begun name) read
        obtain ⟨b, t', ran', -, same⟩ := again s' trivial
        exact ⟨b, t', ran', same⟩
      obtain ⟨hu, related, again⟩ := parsed home' n fits' _ m u (hs.begun name) read
      exact ⟨hu.settled idle fun _ => genuine, related, again⟩

/-- By induction on the depth: an alias that has a genuine node is resolved to it. -/
theorem alone_resolved (home home' : Nat) {depth n : Nat} (orderly : d.IsOrderly name)
    (away : ∀ b ∈ busy, ¬d.Leads name b) (fits : d.Fits depth name) (fits' : d.Fits n name) :
    Parsing.Simulates (fun _ => True) (Remembers d busy) (fun a b => a.erase = b.erase)
      (resolveAlone home' d n name) (resolveUpTo home d depth name) := by
  induction depth generalizing name busy n with
  | zero => cases fits
  | succ depth ih =>
    intro s a t _ ran
    refine ⟨trivial, ⟨a, rfl⟩, fun s' hs' => ?_⟩
    have idle : name ∉ busy := fun hb => away name hb .refl
    cases known : Entries.get? name s'.resolutions with
    | some r =>
      cases r with
      | inProgress => exact absurd ((hs'.busy name).mp known) idle
      | resolved k =>
        obtain ⟨b, u, ran', same⟩ := hs'.genuine name k known orderly home' n fits' s
        cases ran.symm.trans ran'
        exact ⟨k, s', resolveUpTo_of_resolved known, hs', same.symm⟩
    | none =>
      cases n with
      | zero => cases fits'
      | succ n =>
        cases declared : Entries.get? name d.aliases with
        | none =>
          rw [resolveAlone, declared] at ran
          cases ran
        | some definition =>
          have others (y : String) (refers : d.Refers name y) (other : y ≠ name) :
              Parsing.Simulates (fun _ => True) (Remembers d (insert name busy))
                (fun a b => a.erase = b.erase) (resolveAlone home' d n y)
                  (resolveUpTo home d depth y) :=
            ih (orderly.leads (.single refers)) (orderly.away away refers other)
              (fits y refers other) (fits' y refers other)
          obtain ⟨-, -, again⟩ := parse_alone_resolved declared others s a t trivial ran
          obtain ⟨b, u, read, -, same⟩ := again (begun s' name) (hs'.begun name)
          have ran' : (resolveUpTo home d (depth + 1) name).run.run s' =
              (.ok b, settled u name b) := by
            rw [resolveUpTo_new known declared, resolveNew_ok read]
          obtain ⟨after, -, -⟩ :=
            resolved_alone home home' orderly away fits fits' s' b _ hs' ran'
          exact ⟨b, _, ran', after, same⟩

omit [Library] in
theorem simulates_of_kept {I : ScopeState → Prop} {x : Parsing Node}
    (kept : ∀ s m t, I s → x.run.run s = (.ok m, t) → I t) :
    Parsing.Simulates I (fun _ => False) (fun a b => a.erase = b.erase) x x :=
  fun s m t hs ran => ⟨kept s m t hs ran, ⟨m, rfl⟩, fun _ h => h.elim⟩

/-- Whatever is resolved, the aliases in order are resolved to genuine nodes. An alias that is not
in order may be resolved to any node, and the ones in order that it names are not affected by that.
-/
theorem resolveUpTo_remembers {depth : Nat} (leads : ∀ b ∈ busy, d.Leads b name)
    (subset : ∀ b ∈ busy, Entries.contains b d.aliases = true)
    (enough : d.aliases.length ≤ depth + busy.card) :
    Parsing.Simulates (Remembers d busy) (fun _ => False) (fun a b => a.erase = b.erase)
      (resolveUpTo home d depth name) (resolveUpTo home d depth name) := by
  induction depth generalizing name busy with
  | zero =>
    refine simulates_of_kept fun s m t hs ran => ?_
    obtain ⟨-, rfl⟩ | ⟨-, quiet⟩ | ⟨k, -, -, same, -⟩ := resolveUpTo_cases ran
    · exact hs
    · exact remembers_ofResolutions s t quiet hs
    · exact absurd same.symm (Nat.succ_ne_zero k)
  | succ depth ih =>
    refine simulates_of_kept fun s m t hs ran => ?_
    obtain ⟨-, rfl⟩ | ⟨-, quiet⟩ | ⟨k, definition, u, same, known, declared, read,
        rfl⟩ := resolveUpTo_cases ran
    · exact hs
    · exact remembers_ofResolutions s t quiet hs
    cases same
    have idle : name ∉ busy := fun hb => by
      rw [(hs.busy name).mpr hb] at known
      cases known
    have here := Declarations.contains_of_get? declared
    by_cases orderly : d.IsOrderly name
    · have away (b : String) (hb : b ∈ busy) : ¬d.Leads name b := fun back =>
        idle (orderly name b .refl back (leads b hb) ▸ hb)
      have fits := Declarations.fits_of_length busy here subset enough orderly away
      exact (resolved_alone home home orderly away fits fits s m _ hs ran).1
    · have lookups : (lookupWith home d (resolveUpTo home d depth)).Simulates
          (Remembers d (insert name busy)) (fun _ => False) (· ∈ Definition.names definition)
            (lookupWith home d (resolveUpTo home d depth)) := by
        refine lookupWith_simulates remembers_ofResolutions (fun _ _ _ h => h) fun y hy known => ?_
        have refers : d.Refers name y := ⟨definition, declared, hy, known⟩
        refine ih ?_ ?_ ?_
        · exact (Finset.forall_mem_insert _ _ _).mpr
            ⟨.single refers, fun b hb => (leads b hb).tail refers⟩
        · exact (Finset.forall_mem_insert _ _ _).mpr ⟨here, subset⟩
        · rw [Finset.card_insert_of_notMem idle]
          omega
      have after := (parseAlias_simulates name lookups _ m u (hs.begun name) read).1
      exact after.settled idle fun h => absurd h orderly

theorem resolveUpTo_reaches {depth : Nat} {first : String} (leads : d.Leads first name) :
    Parsing.Simulates (fun s => ∀ y, s.Knows y → d.Leads first y) (fun _ => False)
      (fun a b => a.erase = b.erase) (resolveUpTo home d depth name)
        (resolveUpTo home d depth name) := by
  have ofResolutions : IsOfResolutions fun s => ∀ y, s.Knows y → d.Leads first y :=
    fun s t same h y known =>
    h y (by rwa [ScopeState.Knows, same] at known)
  induction depth generalizing name with
  | zero =>
    refine simulates_of_kept fun s m t hs ran => ?_
    obtain ⟨-, rfl⟩ | ⟨-, quiet⟩ | ⟨k, -, -, same, -⟩ := resolveUpTo_cases ran
    · exact hs
    · exact ofResolutions s t quiet hs
    · exact absurd same.symm (Nat.succ_ne_zero k)
  | succ depth ih =>
    refine simulates_of_kept fun s m t hs ran => ?_
    obtain ⟨-, rfl⟩ | ⟨-, quiet⟩ | ⟨k, definition, u, same, -, declared, read, rfl⟩ :=
      resolveUpTo_cases ran
    · exact hs
    · exact ofResolutions s t quiet hs
    cases same
    have lookups : (lookupWith home d (resolveUpTo home d depth)).Simulates
        (fun s => ∀ y, s.Knows y → d.Leads first y) (fun _ => False)
          (· ∈ Definition.names definition) (lookupWith home d (resolveUpTo home d depth)) :=
      lookupWith_simulates ofResolutions (fun _ _ _ h => h) fun y hy known =>
        ih (leads.tail ⟨definition, declared, hy, known⟩)
    have begins (y : String) (known : (begun s name).Knows y) : d.Leads first y := by
      rw [ScopeState.Knows, begun, Entries.get?_insert] at known
      split_ifs at known with same
      · exact same ▸ leads
      · exact hs y known
    have after := (parseAlias_simulates name lookups _ m u begins read).1
    intro y known
    rw [ScopeState.Knows, settled, Entries.get?_insert] at known
    split_ifs at known with same
    · exact same ▸ leads
    · exact after y known

theorem remembers_empty : Remembers d ∅ .empty :=
  ⟨nofun, fun _ => ⟨nofun, fun h => absurd h (Finset.notMem_empty _)⟩⟩

/-- A genuine node mentions nothing but what its alias leads to. -/
theorem IsGenuine.leads {m : Node} (genuine : IsGenuine d name m) (orderly : d.IsOrderly name)
    (declared : Entries.contains name d.aliases = true) {y : String} (mentioned : m.Mentions y) :
    d.Leads name y := by
  have away : ∀ b ∈ (∅ : Finset String), ¬d.Leads name b :=
    fun b hb => absurd hb (Finset.notMem_empty b)
  have fits : d.Fits d.aliases.length name := by
    refine Declarations.fits_of_length ∅ declared ?_ (by simp) orderly away
    exact fun b hb => absurd hb (Finset.notMem_empty b)
  obtain ⟨b, t, ran, same⟩ := genuine 0 _ fits .empty
  obtain ⟨-, -, again⟩ := alone_resolved 0 0 orderly away fits fits .empty b t trivial ran
  obtain ⟨k, u, ran', -, same'⟩ := again .empty remembers_empty
  have can := Standard.looked_parsable 0
  have parsed := resolveUpTo_ensures can d d.aliases.length name (ofDeclarations_sound 0 d).holds
  rw [show (ofDeclarations 0 d).state = .empty from rfl, ran'] at parsed
  have within : k.IsWithin (some 0) u.Knows := (parsed.2.2 k rfl).2.2
  have reached := (resolveUpTo_reaches (.refl) .empty k u nofun ran').1
  rw [Node.mentions_congr (Node.same_iff.mpr (same.trans same'))] at mentioned
  exact reached y (Node.within_mentions within mentioned)

end Scope

end SchemaAlgebra
