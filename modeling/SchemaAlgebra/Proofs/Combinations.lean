import SchemaAlgebra.Proofs.Canonical
import SchemaAlgebra.Proofs.Repetition
import SchemaAlgebra.Standard

/-!
# Ways to combine definitions

Two texts can be combined in a grammar text, in a nested definition, or by a call on the nodes
that they were parsed to. Unions and arrays come out the same; an intersection written in a
grammar text fails also where its branches are not determinate.
-/
namespace SchemaAlgebra

section

open Parsing

variable [Library]

/-- The text was read to the node before, and what was resolved for it is still known. -/
def Lookup.ReadBefore (lookup : Lookup) (w : Standard) (text : String) (n : Node)
    (s' : ScopeState) : Prop :=
  ∃ s p t, s.Holds w ∧ s.Calm ∧ (parseExpression lookup false text).run.run s = (.ok p, t) ∧
    t.Recalled s' ∧ p.node = n

theorem Lookup.ReadBefore.recalled {lookup : Lookup} {w : Standard} {text : String} {n : Node}
    {s s' : ScopeState} (read : lookup.ReadBefore w text n s) (recalled : s.Recalled s') :
    lookup.ReadBefore w text n s' := by
  obtain ⟨u, p, t, hu, calm, ran, before, same⟩ := read
  exact ⟨u, p, t, hu, calm, ran, before.trans recalled, same⟩

theorem Lookup.ReadBefore.ne_literal {lookup : Lookup} {w : Standard} {text : String} {n : Node}
    {s : ScopeState} (read : lookup.ReadBefore w text n s) : text ≠ "===" := by
  rintro rfl
  obtain ⟨u, p, t, -, -, ran, -⟩ := read
  rw [ExpressionState.parseExpression_eq, Scan.tokens_cons (t := .comparator .eq) rfl nofun] at ran
  cases ran

omit [Library] in
theorem Parsing.run_bind_congr {α β : Type} {x y : Parsing α} {f : α → Parsing β}
    {s t : ScopeState} (same : x.run.run s = y.run.run t) :
    (x >>= f).run.run s = (y >>= f).run.run t := by
  rw [ExceptT.run_bind, StateT.run_bind, same, ExceptT.run_bind, StateT.run_bind]

theorem ExpressionState.parsed_finish (lookup : Lookup) (n : Node) (g : Group) (optional : Bool) :
    steps lookup false ⟨.operator n, g, [], optional⟩ [.ok .finish] >>= parsed =
      (Parsed.mk · optional) <$> finishGroup g n := by
  simp [steps, step, operator, conclude, parsed]

section

variable {lookup : Lookup} {home : Nat} {w : Standard} (can : Parsable home w)
  (aliases : lookup.Holds w) (steady : lookup.IsSteady) {left right : String} {a b : Node}
  {s : ScopeState}
include can aliases steady

namespace ExpressionState

theorem steps_group (read : lookup.ReadBefore w left a s) (parent : Group) (outer : List Group)
    (optional : Bool) (rest : List Char) :
    ∃ m t, t.resolutions = s.resolutions ∧ a.erase = m.erase ∧
      (steps lookup false ⟨.operand, .empty, parent :: outer, optional⟩
        (Scan.tokens (left.toList ++ ')' :: rest))).run.run s =
      (steps lookup false ⟨.operator m, parent, outer, optional⟩ (Scan.tokens rest)).run.run
        t := by
  obtain ⟨_, p, _, holds, calm, ran, recalled, rfl⟩ := read
  obtain ⟨ts, unfinished, scanned, g, root, u, m, t, again, finished, same, made⟩ :=
    repeats_text can aliases steady holds calm ran recalled (parent :: outer) optional
  refine ⟨m, t, same, made, ?_⟩
  have closed : (step lookup false ⟨.operator root, g, parent :: outer, optional⟩
      .groupClose).run.run u = (.ok ⟨.operator m, parent, outer, optional⟩, t) := by
    refine run_bind_eq_ok.mpr ⟨m, t, finished, rfl⟩
  rw [Scan.tokens_close scanned unfinished, steps_append, run_bind_ok again]
  exact run_bind_ok closed

end ExpressionState

open ExpressionState

theorem parseExpression_again (read : lookup.ReadBefore w left a s) :
    ∃ p t, (parseExpression lookup false left).run.run s = (.ok p, t) ∧
      t.resolutions = s.resolutions ∧ a.erase = p.node.erase := by
  obtain ⟨_, p, _, holds, calm, ran, recalled, rfl⟩ := read
  obtain ⟨ts, -, scanned, g, root, u, m, t, again, finished, same, made⟩ :=
    repeats_text can aliases steady holds calm ran recalled [] false
  refine ⟨⟨m, false⟩, t, ?_, same, made⟩
  rw [parseExpression_eq, scanned, steps_append, bind_assoc]
  refine run_bind_eq_ok.mpr ⟨_, u, again, ?_⟩
  rw [parsed_finish]
  exact run_bind_eq_ok.mpr ⟨m, t, finished, rfl⟩

/-- The tokens of a text in parentheses are read within the group. -/
theorem parseExpression_group (read : lookup.ReadBefore w left a s) (text : String)
    (rest : List Char) (spelled : text.toList = '(' :: (left.toList ++ ')' :: rest)) :
    ∃ m t, t.resolutions = s.resolutions ∧ a.erase = m.erase ∧
      (parseExpression lookup false text).run.run s =
        (steps lookup false ⟨.operator m, .empty, [], false⟩
          (Scan.tokens rest) >>= parsed).run.run t := by
  obtain ⟨m, t, same, made, group⟩ := steps_group can aliases steady read .empty [] false rest
  refine ⟨m, t, same, made, ?_⟩
  rw [parseExpression_eq, spelled, Scan.tokens_cons (t := .groupOpen) rfl nofun]
  exact run_bind_congr group

/-- Two texts in parentheses with a bar between them are united. -/
theorem parseExpression_bar (read : lookup.ReadBefore w left a s)
    (read' : lookup.ReadBefore w right b s) : ∃ m k t, a.erase = m.erase ∧ b.erase = k.erase ∧
      (parseExpression lookup false ("(" ++ left ++ ")|(" ++ right ++ ")")).run.run s =
        ((Parsed.mk · false) <$> unite [m, k]).run.run t := by
  obtain ⟨m, t, same, made, first⟩ :=
    parseExpression_group can aliases steady read ("(" ++ left ++ ")|(" ++ right ++ ")")
    ('|' :: '(' :: (right.toList ++ [')'])) (by simp)
  obtain ⟨k, u, -, made', second⟩ :=
    steps_group can aliases steady (read'.recalled (.of_eq same)) ⟨none, none, [m]⟩ [] false []
  refine ⟨m, k, u, made, made', ?_⟩
  rw [first, Scan.tokens_cons (t := .bar) rfl nofun, Scan.tokens_cons (t := .groupOpen) rfl nofun]
  have opened : steps lookup false ⟨.operator m, .empty, [], false⟩
      (.ok .bar :: .ok .groupOpen ::
        Scan.tokens (right.toList ++ [')'])) =
      steps lookup false ⟨.operand, .empty, [⟨none, none, [m]⟩], false⟩
        (Scan.tokens (right.toList ++ [')'])) := rfl
  rw [opened, run_bind_congr second, Scan.tokens_nil, parsed_finish]
  rfl

/-- Two texts in parentheses with an ampersand between them are intersected, and what comes out is
united. -/
theorem parseExpression_ampersand (read : lookup.ReadBefore w left a s)
    (read' : lookup.ReadBefore w right b s) : ∃ m k t, a.erase = m.erase ∧ b.erase = k.erase ∧
      (parseExpression lookup false ("(" ++ left ++ ")&(" ++ right ++ ")")).run.run s =
        ((Parsed.mk · false) <$> do unite [← intersect m k]).run.run t := by
  obtain ⟨m, t, same, made, first⟩ :=
    parseExpression_group can aliases steady read ("(" ++ left ++ ")&(" ++ right ++ ")")
    ('&' :: '(' :: (right.toList ++ [')'])) (by simp)
  obtain ⟨k, u, -, made', second⟩ :=
    steps_group can aliases steady (read'.recalled (.of_eq same)) ⟨none, some m, []⟩ [] false []
  refine ⟨m, k, u, made, made', ?_⟩
  rw [first, Scan.tokens_cons (t := .ampersand) rfl nofun,
    Scan.tokens_cons (t := .groupOpen) rfl nofun]
  have opened : steps lookup false ⟨.operator m, .empty, [], false⟩
      (.ok .ampersand :: .ok .groupOpen ::
        Scan.tokens (right.toList ++ [')'])) =
      steps lookup false ⟨.operand, .empty, [⟨none, some m, []⟩], false⟩
        (Scan.tokens (right.toList ++ [')'])) := rfl
  rw [opened, run_bind_congr second, Scan.tokens_nil, parsed_finish]
  rfl

theorem parseExpression_list (read : lookup.ReadBefore w left a s) :
    ∃ m t, a.erase = m.erase ∧ (parseExpression lookup false ("(" ++ left ++ ")[]")).run.run s =
      ((Parsed.mk · false) <$> do unite [← build (Traced.arrayOf m)]).run.run t := by
  obtain ⟨m, t, -, made, first⟩ :=
    parseExpression_group can aliases steady read ("(" ++ left ++ ")[]") ['[', ']'] (by simp)
  refine ⟨m, t, made, ?_⟩
  rw [first, Scan.tokens_cons (t := .list) rfl nofun, Scan.tokens_nil]
  have listed : steps lookup false ⟨.operator m, .empty, [], false⟩ [.ok .list, .ok .finish] =
      build (Traced.arrayOf m) >>= fun n => steps lookup false ⟨.operator n, .empty, [], false⟩
        [.ok .finish] := by
    simp [steps, step, operator]
  rw [listed, bind_assoc]
  simp only [parsed_finish]
  rfl

end

/-- No two branches, one of which is a morph, have a common value. -/
def Node.isDeterminate (n : Node) : Bool :=
  !(Union.pairs n.branches).any fun p => (p.1.isMorph || p.2.isMorph) &&
    (Union.overlaps meet p.1 p.2).value id

/-- Different branches none of which includes another are irredundant. -/
theorem Union.irredundant_of_normal {n : Node} (reduced : n.Reduced)
    (normal : n.constraint.IsNormal) : Irredundant n.branches := by
  obtain ⟨c⟩ := n
  cases c with
  | union branches =>
    refine normal.2.imp_of_mem fun {a b} ha hb separate => ⟨separate.1, fun plain plain' => ?_⟩
    have free {a b : Node} (ha : a ∈ branches) (hb : b ∈ branches) (plain : a.isMorph = false)
        (plain' : b.isMorph = false) (outside : a.Exceeds b) :
        (isSubtype meetFreely a b).value id = false := by
      have left := reduced.children a ha
      have right := reduced.children b hb
      rw [value_isSubtype, meetFreely_eq_meet left right, ← value_isSubtype]
      exact (isSubtype_eq_false_iff left right plain plain').mpr outside
    obtain ⟨left, right⟩ := separate.2 plain plain'
    exact ⟨free ha hb plain plain' left, free hb ha plain' plain right⟩
  | _ => exact List.pairwise_singleton _ _

/-- A reduced and normal node is its own union, if that is determinate. -/
theorem Union.determinate_of_normal {n : Node} (reduced : n.Reduced)
    (normal : n.constraint.IsNormal) :
    ((determinateUnion [n]).value id).toOption = (some n).filter Node.isDeterminate := by
  have united : (of SchemaAlgebra.meet [n]).value id = n := by
    refine value_of_irredundant (fun b hb => reduced.isUnion_of_branch hb) (fun branches same => ?_)
      (irredundant_of_normal reduced normal) (List.forall_mem_singleton.mpr reduced)
        (List.append_nil _)
    rw [same] at normal
    exact normal.1
  ext m
  rw [toOption_eq_some, Option.filter_eq_some_iff]
  refine (value_determinate SchemaAlgebra.meet [n] id).trans ?_
  rw [united, Option.some.injEq, Node.isDeterminate, Bool.not_eq_true']

/-- What is left of a reduced and normal node is its own union, if that is determinate. -/
theorem Union.determinate_erase_of_normal {n : Node} (h : n.Reduced ∧ n.Normal) :
    ((determinateUnion [n.erase]).value id).toOption = ((some n).filter Node.isDeterminate).map
      Node.erase :=
  (determinate_erase Node.same_refl [n]).symm.trans
    (congrArg (Option.map Node.erase) (determinate_of_normal h.1 h.2.isNormal))

theorem Node.isDeterminate_of_single {n : Node} (single : n.constraint.isUnion = false) :
    n.isDeterminate = true := by
  rw [isDeterminate, branches_of_single single]
  rfl

omit [Library] in
theorem Node.array_single (element : Node) : element.array.constraint.isUnion = false := by
  rw [array]
  split_ifs <;> rfl

omit [Library] in
theorem Node.digest_erase (n : Node) : n.erase.digest = n.digest :=
  congrArg Digest.ofText n.key_erase

omit [Library] in
theorem Node.digest_comp_erase : Node.digest ∘ Node.erase = Node.digest :=
  funext Node.digest_erase

omit [Library] in
/-- What comes next depends on the result, up to what is erased. -/
theorem Parsing.Result.bind {x : Parsing Node} {o : Option Node} {f : Node → Parsing Node}
    {g : Node → Option Node} (first : Result x o) (next : ∀ n, Result (f n) (g n.erase)) :
    Result (x >>= f) (o.bind g) := by
  intro s
  rw [← first s]
  cases ran : x.run.run s with
  | mk o t =>
    cases o with
    | ok n => rw [run_bind_ok ran, next n t]; rfl
    | error e => rw [run_bind_error ran]; rfl

namespace Scope

/-- The digest of the node that a call returned. -/
def returned {ε : Type} (called : Except ε Node × Scope) : Option String :=
  called.1.toOption.map Node.digest

omit [Library] in
theorem returned_eq {ε : Type} (called : Except ε Node × Scope) :
    returned called = (called.1.toOption.map Node.erase).map Node.digest := by
  rw [Option.map_map, Node.digest_comp_erase, returned]

omit [Library] in
theorem toOption_noteFailure (text : String) (called : Except ParseError Node × Scope) :
    (noteFailure text called).1.toOption = called.1.toOption := by
  obtain ⟨o, s⟩ := called
  cases o <;> rfl

theorem toOption_parse (s : Scope) (text : String) : (s.parse text).1.toOption =
    ((parseExpression s.lookup false text).run.run s.state).1.toOption.map Parsed.node := by
  rw [parse, toOption_noteFailure]
  cases ran : (parseExpression s.lookup false text).run.run s.state with
  | mk o t =>
    rw [call, ExceptT.run_map, StateT.run_map, ran]
    cases o <;> rfl

theorem toOption_parseValue (s : Scope) (definition : Json) : (s.parseValue definition).1.toOption =
    ((Definition.parse s.lookup definition).run.run s.state).1.toOption := by
  rw [parseValue, toOption_noteFailure]
  rfl

theorem erase_unite (s : Scope) (a b : Node) : (s.unite a b).1.toOption.map Node.erase =
    ((determinateUnion [a.erase, b.erase]).value id).toOption := by
  refine Eq.trans ?_ (Union.determinate_erase
    (ScopeState.settled_same (determinateUnion [a, b]) s.state) [a, b])
  rw [unite, ← s.value_build]
  cases s.build (determinateUnion [a, b]) with
  | mk o t => cases o <;> rfl

theorem erase_intersect (s : Scope) (a b : Node) : (s.intersect a b).1.toOption.map Node.erase =
    ((meet a.erase b.erase).outcome id).toOption := by
  rw [← s.intersect_erase]
  cases (s.intersect a b).1 <;> rfl

omit [Library] in
theorem erase_arrayOf (s : Scope) (a : Node) : (s.arrayOf a).1.erase = a.erase.array :=
  (congrArg Node.erase (s.value_build _)).trans
    (Traced.arrayOf_erase (ScopeState.settled_same _ s.state) a)

section

variable {w : Standard} {s : Scope}

theorem readBefore (sound : s.Sound w) {text : String} {n : Node}
    (parsed : (s.parse text).1 = .ok n) : s.lookup.ReadBefore w text n (s.parse text).2.state := by
  cases ran : (parseExpression s.lookup false text).run.run s.state with
  | mk o t =>
    cases o with
    | error e =>
      have failed := toOption_parse s text
      rw [parsed, ran] at failed
      cases failed
    | ok p =>
      have mapped : (Parsed.node <$> parseExpression s.lookup false text).run.run s.state =
          (.ok p.node, t) := by
        rw [ExceptT.run_map, StateT.run_map, ran]
        rfl
      rw [parse, call_ok sound.idle mapped] at parsed ⊢
      cases parsed
      exact ⟨s.state, p, t, sound.holds, sound.settled, ran, .of_eq rfl, rfl⟩

theorem Kept.lookup {t : Scope} (kept : Kept w s t) : t.lookup = s.lookup := by
  rw [Scope.lookup, Scope.lookup, resolving, resolving, kept.same_home, kept.same_declarations]

theorem erase_parse {text : String} {x : Parsing Node} {o : Option Node} {t : ScopeState}
    (ran : (parseExpression s.lookup false text).run.run s.state =
      ((Parsed.mk · false) <$> x).run.run t)
    (result : Result x o) : (s.parse text).1.toOption.map Node.erase = o := by
  rw [toOption_parse, ran, ExceptT.run_map, StateT.run_map, ← result t]
  cases x.run.run t with
  | mk o u => cases o <;> rfl

variable (can : Parsable s.home w) {left right : String} {a b : Node}
  (read : s.lookup.ReadBefore w left a s.state) (read' : s.lookup.ReadBefore w right b s.state)
include can read

theorem erase_parse_list :
    (s.parse ("(" ++ left ++ ")[]")).1.toOption.map Node.erase =
      ((determinateUnion [a.erase.array]).value id).toOption := by
  obtain ⟨m, t, made, ran⟩ := parseExpression_list can (lookup_holds can) s.lookup_steady read
  rw [made]
  exact erase_parse ran ((result_arrayOf m).bind
    (g := fun n => ((determinateUnion [n]).value id).toOption)
    fun n => result_unite [n])

theorem erase_parseValue_list :
    (s.parseValue (.array [.string left, .string "[]"])).1.toOption.map Node.erase =
      some a.erase.array := by
  obtain ⟨p, t, ran, -, made⟩ :=
    parseExpression_again can (lookup_holds can) s.lookup_steady read
  have again : (Definition.parse s.lookup (.string left)).run.run s.state = (.ok p.node, t) := by
    rw [Definition.parse, run_bind_ok ran]
    rfl
  rw [toOption_parseValue, Definition.parse.eq_4 _ _ (by simpa using read.ne_literal),
    run_bind_ok again, made]
  exact result_arrayOf p.node t

include read'

theorem erase_parse_bar :
    (s.parse ("(" ++ left ++ ")|(" ++ right ++ ")")).1.toOption.map Node.erase =
    ((determinateUnion [a.erase, b.erase]).value id).toOption := by
  obtain ⟨m, k, t, made, made', ran⟩ :=
    parseExpression_bar can (lookup_holds can) s.lookup_steady read read'
  rw [made, made']
  exact erase_parse ran (result_unite [m, k])

theorem erase_parse_ampersand :
    (s.parse ("(" ++ left ++ ")&(" ++ right ++ ")")).1.toOption.map Node.erase =
    ((meet a.erase b.erase).outcome id).toOption.bind fun n =>
      ((determinateUnion [n]).value id).toOption := by
  obtain ⟨m, k, t, made, made', ran⟩ :=
    parseExpression_ampersand can (lookup_holds can) s.lookup_steady read read'
  rw [made, made']
  exact erase_parse ran ((result_intersect m k).bind fun n => result_unite [n])

/-- Two texts that were read are read again, one after the other. -/
theorem parseBoth_again (next : Node → Node → Parsing Node) :
    ∃ m k t, a.erase = m.erase ∧ b.erase = k.erase ∧
      (do
        let first ← Definition.parse s.lookup (.string left)
        next first (← Definition.parse s.lookup (.string right))).run.run s.state =
      (next m k).run.run t := by
  obtain ⟨p, t, ran, same, made⟩ :=
    parseExpression_again can (lookup_holds can) s.lookup_steady read
  obtain ⟨q, u, ran', -, made'⟩ :=
    parseExpression_again can (lookup_holds can) s.lookup_steady (read'.recalled (.of_eq same))
  refine ⟨p.node, q.node, u, made, made', ?_⟩
  have first : (Definition.parse s.lookup (.string left)).run.run s.state = (.ok p.node, t) := by
    rw [Definition.parse, run_bind_ok ran]
    rfl
  have second : (Definition.parse s.lookup (.string right)).run.run t = (.ok q.node, u) := by
    rw [Definition.parse, run_bind_ok ran']
    rfl
  rw [run_bind_ok first, run_bind_ok second]

theorem erase_parseValue_bar :
    (s.parseValue (.array [.string left, .string "|", .string right])).1.toOption.map Node.erase =
      ((determinateUnion [a.erase, b.erase]).value id).toOption := by
  obtain ⟨m, k, t, made, made', ran⟩ :=
    parseBoth_again can read read' fun m k => Parsing.unite [m, k]
  rw [toOption_parseValue, Definition.parse, ran, made, made']
  exact result_unite [m, k] t

theorem erase_parseValue_ampersand :
    (s.parseValue (.array [.string left, .string "&", .string right])).1.toOption.map Node.erase =
      ((meet a.erase b.erase).outcome id).toOption := by
  obtain ⟨m, k, t, made, made', ran⟩ := parseBoth_again can read read' Parsing.intersect
  rw [toOption_parseValue, Definition.parse, ran, made, made']
  exact result_intersect m k t

end

end Scope

namespace Session

variable {home : Nat} {d : Declarations} {requests : List Request}

/-- Among the calls of the session is one that parsed the text to the node. -/
def HasParsed (home : Nat) (d : Declarations) (requests : List Request) (text : String)
    (n : Node) : Prop :=
  ∃ before later, requests = before ++ .parse text :: later ∧
    ((run home d before).scope.parse text).1 = .ok n

theorem HasParsed.append {text : String} {n : Node} (parsed : HasParsed home d requests text n)
    (more : List Request) : HasParsed home d (requests ++ more) text n := by
  obtain ⟨before, later, rfl, found⟩ := parsed
  exact ⟨before, later ++ more, List.append_assoc _ _ _, found⟩

theorem HasParsed.readBefore {w : Standard} (can : Parsable home w) {text : String} {n : Node}
    (parsed : HasParsed home d requests text n) :
    (run home d requests).scope.lookup.ReadBefore w text n (run home d requests).scope.state ∧
      w.parsed (run home d requests).scope.state n := by
  obtain ⟨before, later, rfl, found⟩ := parsed
  have sound := run_sound can d before
  have first : run home d (before ++ [.parse text]) =
      ⟨((run home d before).scope.parse text).2, (run home d before).nodes ++ [n]⟩ := by
    rw [run, List.foldl_append]
    change (run home d before).take ((run home d before).scope.parse text) = _
    generalize (run home d before).scope.parse text = called at found
    obtain ⟨o, s⟩ := called
    cases found
    rfl
  have continues := run_continues can d (before ++ [.parse text]) later
  rw [first, List.append_assoc] at continues
  change Continues home d w _ (run home d (before ++ .parse text :: later)) at continues
  have can' : Parsable (run home d before).scope.home w := sound.same_home.symm ▸ can
  have kept := (Scope.parse_sound can' sound.scope text).toKept.trans continues.kept
  refine ⟨?_, continues.sound.nodes n
    (continues.nodes (List.mem_append_right _ List.mem_cons_self))⟩
  rw [kept.lookup]
  exact (Scope.readBefore sound.scope found).recalled continues.kept.kept

/-- Whenever two texts were parsed, a grammar text and a nested definition combine them as a call
does. A grammar text takes an intersection only if it is determinate. -/
theorem combinations_agree (home : Nat) (d : Declarations) (requests : List Request)
    {left right : String} {a b : Node} (parsed : HasParsed home d requests left a)
    (parsed' : HasParsed home d requests right b) (later later' : List Request) :
    let s := (run home d (requests ++ later)).scope
    let t := (run home d (requests ++ later')).scope
    (Scope.returned (s.parse ("(" ++ left ++ ")|(" ++ right ++ ")")) = Scope.returned
      (t.unite a b) ∧
      Scope.returned (s.parseValue (.array [.string left, .string "|", .string right])) =
        Scope.returned (t.unite a b)) ∧
    (Scope.returned (s.parse ("(" ++ left ++ ")&(" ++ right ++ ")")) =
        ((t.intersect a b).1.toOption.filter Node.isDeterminate).map Node.digest ∧
      Scope.returned (s.parseValue (.array [.string left, .string "&", .string right])) =
        Scope.returned (t.intersect a b)) ∧
    Scope.returned (s.parse ("(" ++ left ++ ")[]")) = some (t.arrayOf a).1.digest ∧
      Scope.returned (s.parseValue (.array [.string left, .string "[]"])) =
        some (t.arrayOf a).1.digest := by
  intro s t
  have can := Node.Normal.buildable home
  have sound : Sound home d _ _ := run_sound can d (requests ++ later)
  have sound' : Sound home d _ _ := run_sound can d (requests ++ later')
  have can' : Parsable s.home _ := sound.same_home.symm ▸ can
  have can'' : Parsable t.home _ := sound'.same_home.symm ▸ can
  obtain ⟨read, -⟩ := (parsed.append later).readBefore can
  obtain ⟨read', -⟩ := (parsed'.append later).readBefore can
  obtain ⟨-, ha⟩ := (parsed.append later').readBefore can
  obtain ⟨-, hb⟩ := (parsed'.append later').readBefore can
  simp only [Scope.returned_eq]
  refine ⟨⟨?_, ?_⟩, ⟨?_, ?_⟩, ?_, ?_⟩
  · rw [Scope.erase_parse_bar can' read read', Scope.erase_unite]
  · rw [Scope.erase_parseValue_bar can' read read', Scope.erase_unite]
  · have normal := (Scope.intersect_sound can'' sound'.scope ha hb).value
    rw [Scope.erase_parse_ampersand can' read read', ← Scope.erase_intersect t]
    cases met : (t.intersect a b).1 with
    | error e => rfl
    | ok n =>
      refine (congrArg (Option.map Node.digest)
        (Union.determinate_erase_of_normal (normal n met))).trans ?_
      rw [Option.map_map, Node.digest_comp_erase]
      rfl
  · rw [Scope.erase_parseValue_ampersand can' read read', Scope.erase_intersect]
  · have single : (t.arrayOf a).1.constraint.isUnion = false := by
      rw [← Constraint.isUnion_head, ← Node.constraint_head_erase, t.erase_arrayOf,
        Constraint.isUnion_head]
      exact a.erase.array_single
    rw [Scope.erase_parse_list can' read, ← t.erase_arrayOf,
      Union.determinate_erase_of_normal (Scope.arrayOf_sound can'' sound'.scope ha).2,
      Option.filter_some_pos (Node.isDeterminate_of_single single)]
    exact congrArg some (Node.digest_erase _)
  · rw [Scope.erase_parseValue_list can' read, ← t.erase_arrayOf]
    exact congrArg some (Node.digest_erase _)

end Session

end

namespace Session

attribute [local instance] Library.standard

/-- A morph and a union of ranges with common texts. -/
def overlapping : List Request := [.parse "trim", .parse "string>2|string<5"]

/-- The two are intersected in a nested definition, as by a call, but not in a grammar text. -/
theorem combinations_agree_overlapping :
    ∃ a b, HasParsed 0 .empty overlapping "trim" a ∧
      HasParsed 0 .empty overlapping "string>2|string<5" b ∧
      let s := (run 0 .empty overlapping).scope
      Scope.returned (s.parse "(trim)&(string>2|string<5)") = none ∧
        Scope.returned (s.parseValue
          (.array [.string "trim", .string "&", .string "string>2|string<5"])) =
          Scope.returned (s.intersect a b) ∧ (Scope.returned (s.intersect a b)).isSome =
            true := by
  have outline : (((run 0 .empty []).scope.parse "trim").1.toOption.bind fun a =>
      ((run 0 .empty [.parse "trim"]).scope.parse "string>2|string<5").1.toOption.bind fun b =>
        ((run 0 .empty overlapping).scope.intersect a b).1.toOption.map Node.isDeterminate) =
          some false := by
    decide +kernel
  obtain ⟨a, first, outline⟩ := Option.bind_eq_some_iff.mp outline
  obtain ⟨b, second, outline⟩ := Option.bind_eq_some_iff.mp outline
  obtain ⟨n, met, several⟩ := Option.map_eq_some_iff.mp outline
  have parsed : HasParsed 0 .empty overlapping "trim" a :=
    ⟨[], _, rfl, Union.toOption_eq_some.mp first⟩
  have parsed' : HasParsed 0 .empty overlapping "string>2|string<5" b :=
    ⟨[.parse "trim"], [], rfl, Union.toOption_eq_some.mp second⟩
  obtain ⟨-, ⟨text, nested⟩, -⟩ :=
    combinations_agree 0 .empty overlapping parsed parsed' [] []
  rw [List.append_nil] at text nested
  refine ⟨a, b, parsed, parsed', ?_, nested, ?_⟩
  · rw [met, Option.filter_some_neg (Bool.not_eq_true _ ▸ several)] at text
    exact text
  · rw [Scope.returned, met]
    rfl

end Session

end SchemaAlgebra
