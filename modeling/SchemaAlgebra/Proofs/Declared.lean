import SchemaAlgebra.Proofs.Soundness
import SchemaAlgebra.Standard

/-!
# What objects declare

The entries of an object are parsed one after the other, what they declare is collected in
properties, and the node of the object has these in normal form. So a value that the node allows
has what was declared, if the entries have different names and their nodes are clear.
-/
namespace SchemaAlgebra

open Parsing

section

theorem Entries.erase_eq_self {α : Type u} {key : String} {es : List (String × α)}
    (absent : get? key es = none) : erase key es = es := by
  induction es with
  | nil => rfl
  | cons e es ih =>
    rw [get?_cons] at absent
    split_ifs at absent with same
    rw [erase, if_neg same, ih absent]

section

variable {α β : Type u} {p : Props α} (f : α → β)

theorem Props.Sorted.map (sorted : p.Sorted) : (p.map f).Sorted :=
  ⟨List.pairwise_map.mpr sorted.required, List.pairwise_map.mpr sorted.optional⟩

theorem Props.Tidy.map (tidy : p.Tidy) : (p.map f).Tidy := by
  refine ⟨tidy.toSorted.map f, fun key v w required optional => ?_⟩
  rw [Props.map, Entries.get?_map] at required optional
  obtain ⟨a, ha, -⟩ := Option.map_eq_some_iff.mp required
  obtain ⟨b, hb, -⟩ := Option.map_eq_some_iff.mp optional
  exact tidy.apart key a b ha hb

end

variable [Library]

namespace Properties

variable {N : Nat} {σ : String → Json → Bool} {p q : Props Node} {d : Json}

/-- A key that is not named is taken by the signatures that match it. -/
theorem Keeps.takes_key {index : List (Signature Node)} (h : Keeps { p with index := index } q)
    (taken : q.Takes (Node.admitsWith fun _ => σ) d) {s : Signature Node} (hs : s ∈ index)
    {key : String} {x : Json} (hx : d.get? key = some x)
    (matched : s.key.admitsWith (fun _ => σ) (.string key) = true) (unnamed : p.get? key = none) :
    s.value.admitsWith (fun _ => σ) x = true := by
  have other : key ∉ q.namedKeys := by
    rw [Props.mem_namedKeys, h.named key]
    exact fun named => Bool.false_ne_true ((congrArg Option.isSome unnamed).symm.trans named)
  cases d with
  | object entries =>
    exact taken.index s (h.index ▸ hs) entries rfl _ (Entries.mem_of_get? hx) other matched
  | _ => cases hx

namespace Normalizes

variable (h : Normalizes N σ p q) (taken : q.Takes (Node.admitsWith fun _ => σ) d)
  (ordered : d.Ordered)
include h taken ordered

theorem takes_entry {key : String} {v : Node} {required : Bool}
    (found : p.get? key = some (v, required)) :
    Props.TakesEntry (Node.admitsWith fun _ => σ) d required (key, v) := by
  obtain ⟨w, required', found', below, still⟩ := (h.named key).narrower v required found
  obtain ⟨present, admitted⟩ := taken.entry found'
  exact ⟨fun hr => present (still hr), fun x hx => below x (ordered.get? hx) (admitted x hx)⟩

/-- A key is taken by the signatures that match it, named or not. -/
theorem takes_key {s : Signature Node} (hs : s ∈ p.index) {key : String} {x : Json}
    (hx : d.get? key = some x) (matched : s.key.admitsWith (fun _ => σ) (.string key) = true)
    (noAlias : s.key.hasAlias = false) : s.value.admitsWith (fun _ => σ) x = true := by
  cases found : q.get? key with
  | none =>
    refine h.keeps.takes_key taken (Sorting.mem_sort.mpr hs) hx matched ?_
    have named := h.keeps.named key
    rw [found] at named
    exact Option.isNone_iff_eq_none.mp (Option.isSome_eq_false_iff.mp named.symm)
  | some entry =>
    obtain ⟨v, required⟩ := entry
    rw [Node.admitsWith_eq_admits noAlias] at matched
    refine h.narrowed s (h.mem_index.mpr hs) noAlias key v required found matched x
      (ordered.get? hx) ?_
    exact (taken.entry found).2 x hx

end Normalizes

/-- Whichever nodes stand for others, what is normalised is so up to what is erased. -/
theorem normalizes_erased {rep : Node → Node} (faithful : ∀ n : Node, n.same (rep n) = true)
    (positive : 0 < N) (small : N ≤ 2 ^ 53) (sorted : p.Sorted)
    (reduced : ∀ m ∈ p.values, m.Reduced) (clear : ∀ m ∈ p.values, m.Clear N)
    (normal : (SchemaAlgebra.normalize p).outcome rep = .ok q) :
    Normalizes N σ (p.map Node.erase) (q.map Node.erase) := by
  have erased : (SchemaAlgebra.normalize (p.map Node.erase)).outcome id =
      .ok (q.map Node.erase) := by
    have mirrored := normalize_erase faithful (meet_erase faithful) p
    rw [show (normalize meet p).outcome rep = .ok q from normal] at mirrored
    exact mirrored.symm
  have values {P : Node → Prop} (h : ∀ m ∈ p.values, P m.erase) :
      ∀ m ∈ (p.map Node.erase).values, P m := by
    rw [Props.values_map]
    exact List.forall_mem_map.mpr h
  have lasts := (normalize_holds Judging.reduced_inherited
    (values fun m hm => ⟨(reduced m hm).erase, trivial⟩) fun _ _ => trivial).2 .exhausted
  have sound := (normalize_normalizes (σ := σ) (meet_narrows positive small)
      (sorted.map Node.erase)
    (values fun m hm => (clear m hm).erase) fun e he same => lasts (same ▸ he)).1
  rwa [show (normalize meet (p.map Node.erase)).run.value Judging.lasting.rep =
    .ok (q.map Node.erase) from erased] at sound

end Properties

section

variable {N : Nat} {σ : String → Json → Bool} {rep : Node → Node}
  (faithful : ∀ n : Node, n.same (rep n) = true) {q : Props Node}
include faithful

theorem Traced.takes_of_object {d : Json}
    (h : ((object q).value rep).admitsWith (fun _ => σ) d = true) :
    q.Takes (Node.admitsWith fun _ => σ) d := by
  have both : Node.AllAdmit σ [rep (.of (.domain .object)), rep (.of (.props q))] d :=
    Conjunction.allAdmit_of_intersection faithful h
  have props := both _ (List.mem_cons_of_mem _ List.mem_cons_self)
  rw [← Node.admitsWith_congr (faithful _)] at props
  exact Node.admitsWith_props.mp props

omit [Library] in
theorem Traced.object_erase :
    ((object q).value rep).erase = (object (q.map Node.erase)).value id := by
  have domain : (rep (.of (.domain .object))).erase = .of (.domain .object) :=
    build_erase faithful rfl
  have props : (rep (.of (.props q))).erase = .of (.props (q.map Node.erase)) :=
    props_erase faithful q
  refine (intersection_erase faithful [rep (.of (.domain .object)), rep (.of (.props q))]).trans ?_
  rw [List.map_cons, List.map_cons, List.map_nil, domain, props]
  rfl

theorem Traced.object_clear (hq : Node.Clear N (.of (.props (q.map Node.erase)))) :
    ((object q).value rep).erase.Clear N := by
  have plain : Conjunction.Plain N [.of (.domain .object), .of (.props (q.map Node.erase))] :=
    List.forall_mem_cons.mpr
      ⟨⟨.leaf trivial trivial rfl, rfl⟩, List.forall_mem_singleton.mpr ⟨hq, rfl⟩⟩
  have agree : Node.Agree [.of (.domain .object), .of (.props (q.map Node.erase))] :=
    .append_singleton (.singleton (Node.not_differs_self rfl)) (Node.not_differs_self rfl)
      (List.forall_mem_singleton.mpr (Node.not_differs_of_marks_right (Node.marks_of (.props _))))
  rw [object_erase faithful]
  refine (Conjunction.intersection_joins (σ := fun _ _ => true) plain agree fun e he => ?_).1.1
  cases List.mem_singleton.mp he
  nofun

end

namespace Definition

/-- What an entry of an object declares, with the nodes of its parts. -/
inductive Declared where
  | named (name : String) (value : Node) (optional : Bool)
  | signature (key value : Node)

namespace Declared

def name? : Declared → Option String
  | named name _ _ => some name
  | signature _ _ => none

def signature? : Declared → Option (Signature Node)
  | named _ _ _ => none
  | signature key value => some ⟨key, value⟩

def nodes : Declared → List Node
  | named _ value _ => [value]
  | signature key value => [key, value]

def addTo (p : Props Node) : Declared → Props Node
  | named name value optional => addNamed p name value optional
  | signature key value => addSignature p key value

end Declared

def namesOf (declared : List Declared) : List String := declared.filterMap Declared.name?

def declare (lookup : Lookup) : String × Json → Parsing Declared
  | (key, value) =>
    match Key.ofText key with
    | .signature text => do
      let keyNode := (← parseExpression lookup false text).node
      return .signature keyNode (← parse lookup value)
    | .named name optional => do
      let parsed ← match value with
        | .string text => parseExpression lookup true text
        | other => (fun n => Parsed.mk n false) <$> parse lookup other
      return .named name parsed.node (optional || parsed.optional)

/-- The entries are parsed in order, and what they declare is added in order. -/
theorem parseEntries_eq (lookup : Lookup) (p : Props Node) (entries : List (String × Json)) :
    parseEntries lookup p entries =
      (do return (← entries.mapM (declare lookup)).foldl Declared.addTo p) := by
  induction entries generalizing p with
  | nil =>
    rw [parseEntries, List.mapM_nil, pure_bind]
    rfl
  | cons e r ih =>
    obtain ⟨key, value⟩ := e
    rw [parseEntries, List.mapM_cons]
    simp only [declare]
    cases Key.ofText key with
    | signature text => simp [ih, Declared.addTo]
    | named name optional => cases value <;> simp [ih, Declared.addTo]

def propsOf (declared : List Declared) : Props Node := declared.foldl Declared.addTo .empty

section

variable {p : Props Node} {declared : List Declared}

omit [Library]

theorem addTo_sorted (sorted : p.Sorted) (e : Declared) : (e.addTo p).Sorted := by
  cases e with
  | signature key value => exact ⟨sorted.required, sorted.optional⟩
  | named name value optional =>
    rw [Declared.addTo, addNamed]
    split_ifs
    · exact ⟨sorted.required, Entries.sorted_insert name value sorted.optional⟩
    · exact ⟨Entries.sorted_insert name value sorted.required, sorted.optional⟩

theorem foldl_addTo_sorted (sorted : p.Sorted) : (declared.foldl Declared.addTo p).Sorted := by
  induction declared generalizing p with
  | nil => exact sorted
  | cons e r ih => exact ih (addTo_sorted sorted e)

theorem foldl_addTo_index :
    (declared.foldl Declared.addTo p).index =
      p.index ++ declared.filterMap Declared.signature? := by
  induction declared generalizing p with
  | nil => exact (List.append_nil _).symm
  | cons e r ih =>
    rw [List.foldl_cons, ih]
    cases e with
    | signature key value => exact List.append_assoc _ _ _
    | named name value optional =>
      rw [Declared.addTo, addNamed]
      split_ifs <;> rfl

theorem foldl_addTo_values {P : Node → Prop} (hp : ∀ m ∈ p.values, P m)
    (hd : ∀ e ∈ declared, ∀ m ∈ e.nodes, P m) :
    ∀ m ∈ (declared.foldl Declared.addTo p).values, P m := by
  induction declared generalizing p with
  | nil => exact hp
  | cons e r ih =>
    obtain ⟨first, rest⟩ := List.forall_mem_cons.mp hd
    refine ih ?_ rest
    cases e with
    | signature key value =>
      have parts := List.forall_mem_cons.mp first
      exact addSignature_values hp parts.1 (List.forall_mem_singleton.mp parts.2)
    | named name value optional =>
      exact addNamed_values hp name (first value List.mem_cons_self) optional

theorem get?_addNamed {name other : String} (different : other ≠ name) (value : Node)
    (optional : Bool) : (addNamed p name value optional).get? other = p.get? other := by
  cases optional <;> simp [addNamed, Props.get?, Entries.get?_insert, different]

theorem get?_foldl_addTo {name : String} (fresh : name ∉ namesOf declared) :
    (declared.foldl Declared.addTo p).get? name = p.get? name := by
  induction declared generalizing p with
  | nil => rfl
  | cons e r ih =>
    rw [List.foldl_cons]
    cases e with
    | signature key value => exact ih fresh
    | named other value optional =>
      obtain ⟨different, fresh⟩ := List.ne_and_not_mem_of_not_mem_cons fresh
      exact (ih fresh).trans (get?_addNamed different value optional)

theorem addNamed_eq_insert {name : String} (fresh : p.get? name = none) (value : Node)
    (optional : Bool) : addNamed p name value optional = p.insert name value !optional := by
  rw [Props.get?] at fresh
  cases required : Entries.get? name p.required with
  | some v =>
    rw [required] at fresh
    cases fresh
  | none =>
    rw [required, Option.map_eq_none_iff] at fresh
    cases optional with
    | true => simp [addNamed, Props.insert, Entries.erase_eq_self required]
    | false => simp [addNamed, Props.insert, Entries.erase_eq_self fresh]

/-- Where all names differ, what is declared under each of them is found there. -/
theorem foldl_addTo_named (tidy : p.Tidy) (distinct : (namesOf declared).Nodup)
    (fresh : ∀ name ∈ namesOf declared, p.get? name = none) :
    (declared.foldl Declared.addTo p).Tidy ∧
      ∀ name value optional, .named name value optional ∈ declared →
        (declared.foldl Declared.addTo p).get? name = some (value, !optional) := by
  induction declared generalizing p with
  | nil => exact ⟨tidy, fun _ _ _ h => absurd h List.not_mem_nil⟩
  | cons e r ih =>
    rw [List.foldl_cons]
    cases e with
    | signature key value =>
      have tidy' : (addSignature p key value).Tidy :=
        ⟨⟨tidy.required, tidy.optional⟩, tidy.apart⟩
      obtain ⟨kept, found⟩ := ih tidy' distinct fresh
      refine ⟨kept, fun name v o h => found name v o ((List.mem_cons.mp h).resolve_left nofun)⟩
    | named name value optional =>
      obtain ⟨new, distinct⟩ := List.nodup_cons.mp distinct
      obtain ⟨absent, fresh⟩ := List.forall_mem_cons.mp fresh
      have added : Declared.addTo p (.named name value optional) = p.insert name value !optional :=
        addNamed_eq_insert absent value optional
      have here (other : String) := Props.get?_insert tidy.toSorted name other value !optional
      rw [added]
      obtain ⟨kept, found⟩ := ih (tidy.insert name value !optional) distinct fun other ho =>
        (here other).trans ((if_neg (ne_of_mem_of_not_mem ho new)).trans (fresh other ho))
      refine ⟨kept, fun other v o h => ?_⟩
      rcases List.mem_cons.mp h with same | h
      · cases same
        rw [get?_foldl_addTo new, here, if_pos rfl]
      · exact found other v o h

end

section

variable {home : Nat} {w : Standard} (can : Parsable home w) {lookup : Lookup}
  (aliases : lookup.Holds w) {s : ScopeState}
include can aliases

theorem declare_ensures (e : String × Json) :
    Ensures w s (declare lookup e) fun t declared => ∀ m ∈ declared.nodes, w.parsed t m := by
  obtain ⟨key, value⟩ := e
  simp only [declare]
  cases Key.ofText key with
  | signature text =>
    refine (parseExpression_ensures can aliases false text).bind fun t parsed _ hkey => ?_
    refine (parse_ensures can aliases value).bind fun u v later hv => .pure ?_
    exact List.forall_mem_cons.mpr ⟨w.lasts later hkey, List.forall_mem_singleton.mpr hv⟩
  | named name optional =>
    have named {x : Parsing Parsed} (hx : Ensures w s x fun t parsed => w.parsed t parsed.node) :
        Ensures w s (do
          let parsed ← x
          return Declared.named name parsed.node (optional || parsed.optional))
          fun t declared => ∀ m ∈ declared.nodes, w.parsed t m :=
      hx.bind fun t parsed _ hn => .pure (List.forall_mem_singleton.mpr hn)
    have nested : Ensures w s ((fun n => Parsed.mk n false) <$> parse lookup value)
        fun t parsed => w.parsed t parsed.node := .map (parse_ensures can aliases value)
    cases value with
    | string text => exact named (parseExpression_ensures can aliases true text)
    | _ => exact named nested

theorem mapM_declare_ensures (entries : List (String × Json)) :
    Ensures w s (entries.mapM (declare lookup)) fun t declared => ∀ e ∈ declared,
      ∀ m ∈ e.nodes, w.parsed t m := by
  induction entries generalizing s with
  | nil =>
    rw [List.mapM_nil]
    exact .pure (List.forall_mem_nil _)
  | cons e r ih =>
    rw [List.mapM_cons]
    refine (declare_ensures can aliases e).bind fun t first _ hf =>
      ih.bind fun u rest later hr => .pure ?_
    exact List.forall_mem_cons.mpr ⟨fun m hm => w.lasts later (hf m hm), hr⟩

theorem parsed_of_declares {entries : List (String × Json)} (holds : s.Holds w)
    {declared : List Declared} {t : ScopeState}
    (declares : (entries.mapM (declare lookup)).run.run s = (.ok declared, t)) :
    ∀ e ∈ declared, ∀ m ∈ e.nodes, w.parsed t m :=
  ((declares ▸ mapM_declare_ensures can aliases entries holds).2.2 declared rfl).2

end

omit [Library] in
theorem attempt_eq_ok {α : Type} {x : Attempt α} {s t : ScopeState} {a : α}
    (ran : (attempt x).run.run s = (.ok a, t)) :
    x.outcome (ScopeState.settled x.run s) = .ok a := by
  rw [attempt, run_bind_ok (run_build x.run s), Attempt.value_run] at ran
  cases outcome : x.outcome (ScopeState.settled x.run s) with
  | ok b =>
    rw [outcome] at ran
    cases ran
    rfl
  | error d =>
    rw [outcome] at ran
    cases ran

omit [Library] in
theorem foldl_addTo_sequence {declared : List Declared} {p : Props Node} :
    (declared.foldl Declared.addTo p).sequence = p.sequence := by
  induction declared generalizing p with
  | nil => rfl
  | cons e r ih =>
    rw [List.foldl_cons, ih]
    cases e with
    | signature key value => rfl
    | named name value optional =>
      rw [Declared.addTo, addNamed]
      split_ifs <;> rfl

theorem outcome_normalize_propsOf {declared : List Declared}
    (unsigned : declared.filterMap Declared.signature? = []) (rep : Node → Node) :
    (normalize (propsOf declared)).outcome rep = .ok (propsOf declared) := by
  have index : (propsOf declared).index = [] := by
    rw [propsOf, foldl_addTo_index, unsigned]
    rfl
  have sequence : (propsOf declared).sequence = none := foldl_addTo_sequence
  generalize propsOf declared = p at index sequence
  obtain ⟨required, optional, _, _⟩ := p
  subst index sequence
  rfl

/-- The node has in normal form what is declared, built in some stores. -/
def Makes (declared : List Declared) (n : Node) : Prop :=
  ∃ s t : Store, ∃ q, (normalize (propsOf declared)).outcome s.representative = .ok q ∧
    (Traced.object q).value t.representative = n

/-- The node of a parsed object is made of what its entries declare. -/
theorem parse_object_eq_ok {lookup : Lookup} {entries : List (String × Json)} {s u : ScopeState}
    {n : Node} (ran : (parse lookup (.object entries)).run.run s = (.ok n, u)) :
    ∃ declared t, (entries.mapM (declare lookup)).run.run s = (.ok declared, t) ∧
      Makes declared n := by
  rw [parse, parseEntries_eq] at ran
  obtain ⟨p, t, entered, finished⟩ := run_bind_eq_ok.mp ran
  obtain ⟨declared, t', declares, collected⟩ := run_bind_eq_ok.mp entered
  cases collected
  obtain ⟨q, v, normal, built⟩ := run_bind_eq_ok.mp finished
  exact ⟨declared, t, declares, _, _, q, attempt_eq_ok normal, build_eq_ok built⟩

namespace Makes

variable {N : Nat} {σ : String → Json → Bool} {declared : List Declared} {n : Node} {d : Json}

omit [Library] in
theorem sorted_propsOf : (propsOf declared).Sorted := foldl_addTo_sorted Props.tidy_empty.toSorted

omit [Library] in
theorem mem_index {key value : Node} (h : .signature key value ∈ declared) :
    ⟨key, value⟩ ∈ (propsOf declared).index := by
  rw [propsOf, foldl_addTo_index]
  exact List.mem_append_right _ (List.mem_filterMap.mpr ⟨_, h, rfl⟩)

/-- Under a name that is not declared a value is as every signature asks that matches the name. -/
theorem takes_unnamed (h : Makes declared n) (admitted : n.admitsWith (fun _ => σ) d = true)
    {key value : Node} (signature : .signature key value ∈ declared) {name : String} {x : Json}
    (hx : d.get? name = some x) (matched : key.admitsWith (fun _ => σ) (.string name) = true)
    (unnamed : name ∉ namesOf declared) : value.admitsWith (fun _ => σ) x = true := by
  obtain ⟨s, t, q, normal, rfl⟩ := h
  have taken := Traced.takes_of_object (Store.representative_same t) admitted
  exact (Properties.normalize_keeps meet s.representative sorted_propsOf normal).takes_key taken
    (s := ⟨key, value⟩) (Sorting.mem_sort.mpr (mem_index signature)) hx matched
      (get?_foldl_addTo unnamed)

/-- Without signatures, there is under every name a value as declared, if all names differ. -/
theorem takes_named_unsigned (h : Makes declared n)
    (unsigned : declared.filterMap Declared.signature? = [])
    (admitted : n.admitsWith (fun _ => σ) d = true) (distinct : (namesOf declared).Nodup)
    {name : String} {value : Node} {optional : Bool}
    (named : .named name value optional ∈ declared) :
    Props.TakesEntry (Node.admitsWith fun _ => σ) d (!optional) (name, value) := by
  obtain ⟨s, t, q, normal, rfl⟩ := h
  rw [outcome_normalize_propsOf unsigned] at normal
  obtain rfl : propsOf declared = q := Except.ok.inj normal
  exact (Traced.takes_of_object (Store.representative_same t) admitted).entry
    ((foldl_addTo_named Props.tidy_empty distinct fun _ _ => rfl).2 name value optional named)

variable (positive : 0 < N) (small : N ≤ 2 ^ 53)
  (reduced : ∀ e ∈ declared, ∀ m ∈ e.nodes, m.Reduced)
  (clear : ∀ e ∈ declared, ∀ m ∈ e.nodes, m.Clear N)
include positive small reduced clear

theorem exists_normal (h : Makes declared n) :
    ∃ q, Properties.Normalizes N σ ((propsOf declared).map Node.erase) q ∧
      (Node.Clear N (.of (.props q)) → n.erase.Clear N) ∧
        ∀ d, n.admitsWith (fun _ => σ) d = true → q.Takes (Node.admitsWith fun _ => σ) d := by
  obtain ⟨s, t, q, normal, rfl⟩ := h
  have faithful := Store.representative_same t
  refine ⟨q.map Node.erase, ?_, Traced.object_clear faithful, fun d admitted => ?_⟩
  · exact Properties.normalizes_erased (Store.representative_same s) positive small sorted_propsOf
      (foldl_addTo_values (List.forall_mem_nil _) reduced)
        (foldl_addTo_values (List.forall_mem_nil _) clear) normal
  · have props := Node.admitsWith_props.mpr (Traced.takes_of_object faithful admitted)
    rw [← Node.admitsWith_congr (Node.erase_same _), Node.erase_of] at props
    exact Node.admitsWith_props.mp props

/-- Where all names differ and no key of a signature depends on an alias, the node is clear. -/
theorem erase_clear (h : Makes declared n) (distinct : (namesOf declared).Nodup)
    (keys : ∀ s ∈ declared.filterMap Declared.signature?, s.key.hasAlias = false) :
    n.erase.Clear N := by
  obtain ⟨q, normal, clear, -⟩ :=
    h.exists_normal (σ := fun _ _ => true) positive small reduced clear
  have tidy : ((propsOf declared).map Node.erase).Tidy :=
    (foldl_addTo_named Props.tidy_empty distinct fun _ _ => rfl).1.map Node.erase
  have kept := normal.keeps.tidy ⟨⟨tidy.required, tidy.optional⟩, tidy.apart⟩
  refine clear (.of _ trivial ⟨kept.nodup, fun s hs => ?_⟩ normal.values)
  obtain ⟨t, ht, rfl⟩ := List.mem_map.mp (normal.mem_index.mp hs)
  rw [propsOf, foldl_addTo_index] at ht
  exact (Node.hasAlias_congr t.key.erase_same).trans (keys t ht)

/-- Under every name a value is as every signature asks that matches the name without aliases. -/
theorem takes_signature (h : Makes declared n) (admitted : n.admitsWith (fun _ => σ) d = true)
    (ordered : d.Ordered) {key value : Node} (signature : .signature key value ∈ declared)
    {name : String} {x : Json} (hx : d.get? name = some x)
    (matched : key.admitsWith (fun _ => σ) (.string name) = true)
    (noAlias : key.hasAlias = false) : value.admitsWith (fun _ => σ) x = true := by
  obtain ⟨q, normal, -, taken⟩ := h.exists_normal (σ := σ) positive small reduced clear
  rw [← Node.admitsWith_congr (Node.erase_same _)] at matched ⊢
  exact normal.takes_key (taken d admitted) ordered
    (List.mem_map.mpr ⟨_, mem_index signature, rfl⟩) hx matched
    ((Node.hasAlias_congr key.erase_same).trans noAlias)

/-- Under every name there is a value as declared, if all names differ. -/
theorem takes_named (h : Makes declared n) (admitted : n.admitsWith (fun _ => σ) d = true)
    (ordered : d.Ordered) (distinct : (namesOf declared).Nodup) {name : String} {value : Node}
    {optional : Bool} (named : .named name value optional ∈ declared) :
    Props.TakesEntry (Node.admitsWith fun _ => σ) d (!optional) (name, value) := by
  obtain ⟨q, normal, -, taken⟩ := h.exists_normal (σ := σ) positive small reduced clear
  have found : ((propsOf declared).map Node.erase).get? name = some (value.erase, !optional) := by
    have collected := foldl_addTo_named Props.tidy_empty distinct fun _ _ => rfl
    rw [Props.get?_map, propsOf, collected.2 name value optional named]
    rfl
  have entry := normal.takes_entry (taken d admitted) ordered found
  exact ⟨entry.1, fun x hx => Node.admitsWith_congr value.erase_same ▸ entry.2 x hx⟩

end Makes

def AreClear (N : Nat) (declared : List Declared) : Prop :=
  ∀ e ∈ declared, ∀ m ∈ e.nodes, ∀ k ∈ m.parts, k.constraint.IsClear N

instance (N : Nat) (declared : List Declared) : Decidable (AreClear N declared) :=
  inferInstanceAs (Decidable
    (∀ e ∈ declared, ∀ m ∈ e.nodes, ∀ k ∈ m.parts, k.constraint.IsClear N))

/-- Whatever the node allows has under every declared name a value that the declared node accepts,
or none if the name is optional. -/
def Imposed (declared : List Declared) (n : Node) : Prop :=
  ∀ (b : Bindings) (cap : Option Nat) (x : Json), x.Ordered → n.Allows b cap x →
    ∀ name value optional, .named name value optional ∈ declared →
      (optional = false → ∃ y, x.get? name = some y) ∧ ∀ y, x.get? name = some y →
        value.Accepts b cap y

section

variable {N home : Nat} {declared : List Declared} {n : Node} {t : ScopeState}
  (parsed : ∀ e ∈ declared, ∀ m ∈ e.nodes, (Standard.looked home).parsed t m)
include parsed

theorem accepts_of_declared {e : Declared} (he : e ∈ declared) {m : Node} (hm : m ∈ e.nodes)
    {b : Bindings} {cap : Option Nat} {d : Json}
    (admitted : m.admitsWith (fun _ => b.meaning cap (some home)) d = true) :
    m.Accepts b cap d := by
  apply Node.accepts_of_admits
  rwa [Node.admitsWith_of_isWithin (parsed e he m hm).2]

omit [Library] in
theorem reduced_of_declared : ∀ e ∈ declared, ∀ m ∈ e.nodes, m.Reduced :=
  fun e he m hm => (parsed e he m hm).1

omit [Library] in
theorem AreClear.clear (clear : AreClear N declared) :
    ∀ e ∈ declared, ∀ m ∈ e.nodes, m.Clear N :=
  fun e he m hm => .of_reduced (parsed e he m hm).1 (clear e he m hm)

theorem imposed_of_takes {m : Node} {R : String → Prop} (within : m.IsWithin (some home) R)
    (takes : ∀ σ x, x.Ordered → m.admitsWith (fun _ => σ) x = true →
      ∀ name value optional,
      .named name value optional ∈ declared →
        Props.TakesEntry (Node.admitsWith fun _ => σ) x (!optional) (name, value)) :
    Imposed declared m := by
  intro b cap x ordered allowed name value optional named
  obtain ⟨present, taken⟩ :=
    takes _ x ordered (Node.admitsWith_of_isWithin within _ ▸ allowed.admits) name value
      optional named
  refine ⟨fun required => present (by rw [required]; rfl), fun y hy => ?_⟩
  exact accepts_of_declared parsed named List.mem_cons_self (taken y hy)

theorem Makes.imposed_below (h : Makes declared n) (positive : 0 < N) (small : N ≤ 2 ^ 53)
    (clear : AreClear N declared) (distinct : (namesOf declared).Nodup) {m : Node}
    {R : String → Prop} (within : m.IsWithin (some home) R) (below : ∀ σ, m.Below σ n) :
    Imposed declared m :=
  imposed_of_takes parsed within fun σ x ordered admitted _ _ _ named =>
    h.takes_named positive small (reduced_of_declared parsed) (clear.clear parsed)
      (below σ x ordered admitted) ordered distinct named

end

section

variable {home depth : Nat} {d : Declarations} {entries : List (String × Json)} {s u : ScopeState}
  {n : Node}

/-- What names refer to in a scope that parses at most the given number of aliases within one
another. -/
def lookupUpTo (home : Nat) (d : Declarations) (depth : Nat) : Lookup :=
  Scope.lookupWith home d (Scope.resolveUpTo home d depth)

/-- In an object that is parsed in a scope, whatever is allowed has under every key that a
signature is about a value that the signature accepts. Under a named key this asks that the
signature depends on no alias, and that all parts of what is declared are clear. -/
theorem signature_accepts (holds : s.Holds (.looked home))
    (ran : (parse (lookupUpTo home d depth) (.object entries)).run.run s = (.ok n, u)) :
    ∃ declared t, (entries.mapM (declare (lookupUpTo home d depth))).run.run s =
      (.ok declared, t) ∧
      ∀ (b : Bindings) (cap : Option Nat) (x : Json), x.Ordered → n.Allows b cap x →
        ∀ key value, .signature key value ∈ declared → ∀ name y, x.get? name = some y →
          key.Allows b cap (.string name) →
            (name ∉ namesOf declared ∨ key.hasAlias = false ∧
              ∃ N, 0 < N ∧ N ≤ 2 ^ 53 ∧ AreClear N declared) → value.Accepts b cap y := by
  have can := Standard.looked_parsable home
  have aliases : (lookupUpTo home d depth).Holds (.looked home) :=
    Scope.lookupWith_holds d fun name _ => Scope.resolveUpTo_ensures can d depth name
  obtain ⟨declared, t, declares, made⟩ := parse_object_eq_ok ran
  have parsed := parsed_of_declares can aliases holds declares
  have within : n.IsWithin (some home) u.Knows :=
    ((ran ▸ parse_ensures can aliases (.object entries) holds).2.2 n rfl).2.2
  refine ⟨declared, t, declares,
    fun b cap x ordered allowed key value signature name y hy matched covered => ?_⟩
  have admitted := Node.admitsWith_of_isWithin within _ ▸ allowed.admits
  have matched := Node.admitsWith_of_isWithin (parsed _ signature key List.mem_cons_self).2 _ ▸
      matched.admits
  refine accepts_of_declared parsed signature (List.mem_cons_of_mem _ List.mem_cons_self) ?_
  rcases covered with unnamed | ⟨noAlias, N, positive, small, clear⟩
  · exact made.takes_unnamed admitted signature hy matched unnamed
  · exact made.takes_signature positive small (reduced_of_declared parsed)
      (clear.clear parsed) admitted ordered signature hy matched noAlias

end

end Definition

end

namespace Definition

attribute [local instance] Library.standard

/-- A signature for all names, beside a name. -/
def labelled : List (String × Json) :=
  [("[string]", .string "number"), ("x?", .string "number|string")]

/-- The named key of the object is taken by the signature too. -/
theorem signature_accepts_labelled :
    ∃ n u declared t key value,
      (parse (lookupUpTo 0 .empty 0) (.object labelled)).run.run .empty = (.ok n, u) ∧
      (labelled.mapM (declare (lookupUpTo 0 .empty 0))).run.run .empty = (.ok declared, t) ∧
        .signature key value ∈ declared ∧ namesOf declared = ["x"] ∧
          n.Allows .unbound none (.object [("x", .number (.int 5))]) ∧
            value.Accepts .unbound none (.number (.int 5)) := by
  have allowed :
      (((parse (lookupUpTo 0 .empty 0) (.object labelled)).run.run .empty).1.toOption.bind fun n =>
      (n.compile.allows .unbound 9 none (.object [("x", .number (.int 5))])).map (·.outcome)) =
        some true := by
    decide +kernel
  have outline : (((labelled.mapM (declare (lookupUpTo 0 .empty 0))).run.run .empty).1.toOption.map
      fun declared =>
      (namesOf declared, decide (AreClear 1 declared))) = some (["x"], true) := by decide +kernel
  have signed : (((labelled.mapM (declare (lookupUpTo 0 .empty 0))).run.run .empty).1.toOption.bind
      fun declared =>
      (declared.filterMap Declared.signature?).head?.bind fun s =>
        (s.key.compile.allows .unbound 9 none (.string "x")).map fun v =>
          (v.outcome, s.key.hasAlias)) = some (true, false) := by decide +kernel
  obtain ⟨n, found, allowed⟩ := Option.bind_eq_some_iff.mp allowed
  have allows : n.Allows .unbound none (.object [("x", .number (.int 5))]) :=
    ⟨9, Option.map_eq_some_iff.mp allowed⟩
  have ran : (parse (lookupUpTo 0 .empty 0) (.object labelled)).run.run .empty = (.ok n, _) :=
    Prod.ext (Union.toOption_eq_some.mp found) rfl
  have holds : ScopeState.empty.Holds (.looked 0) := (Scope.ofDeclarations_sound 0 .empty).holds
  obtain ⟨declared, t, declares, accepts⟩ := signature_accepts holds ran
  rw [declares] at outline signed
  obtain ⟨named, clear⟩ := Prod.mk.inj (Option.some.inj outline)
  obtain ⟨_, same, signed⟩ := Option.bind_eq_some_iff.mp signed
  cases same
  obtain ⟨s, first, ended⟩ := Option.bind_eq_some_iff.mp signed
  obtain ⟨v, ended, told⟩ := Option.map_eq_some_iff.mp ended
  obtain ⟨passed, noAlias⟩ := Prod.mk.inj told
  obtain ⟨e, he, signature⟩ := List.mem_filterMap.mp (List.mem_of_head? first)
  cases e with
  | named name value optional => cases signature
  | signature key value =>
    cases signature
    have ordered : Json.Ordered (.object [("x", .number (.int 5))]) :=
      .single "x" (.of _ nofun nofun nofun)
    refine ⟨n, _, declared, t, key, value, ran, declares, he, named, allows, ?_⟩
    exact accepts .unbound none _ ordered allows key value he "x" _ rfl ⟨9, v, ended, passed⟩
      (.inr ⟨noAlias, 1, by decide, by decide, of_decide_eq_true clear⟩)

end Definition

section

variable [Library]

/-- A definition that a scope has parsed was parsed in the state of the scope. -/
theorem Scope.run_of_parseValue {s : Scope} {definition : Json} {n : Node}
    (parsed : (s.parseValue definition).1 = .ok n) :
    ∃ t, (Definition.parse s.lookup definition).run.run s.state = (.ok n, t) := by
  cases ran : (Definition.parse s.lookup definition).run.run s.state with
  | mk o t =>
    rw [parseValue, call, ran] at parsed
    cases o with
    | ok m =>
      cases parsed
      exact ⟨t, rfl⟩
    | error e => cases parsed

namespace Session

open Definition

/-- The node of a definition is among what the session has returned from then on. -/
theorem mem_nodes_of_parseValue {home : Nat} (d : Declarations) (requests later : List Request)
    {definition : Json} {n : Node}
    (parsed : ((run home d requests).scope.parseValue definition).1 = .ok n) :
    n ∈ (run home d (requests ++ .parseValue definition :: later)).nodes := by
  have returned : n ∈ (run home d (requests ++ [.parseValue definition])).nodes := by
    rw [run, List.foldl_append]
    change n ∈ ((run home d requests).take
      ((run home d requests).scope.parseValue definition)).nodes
    generalize (run home d requests).scope.parseValue definition = called at parsed
    obtain ⟨o, scope⟩ := called
    cases parsed
    exact List.mem_append_right _ List.mem_cons_self
  have continues := run_continues (Standard.looked_parsable home) d
      (requests ++ [.parseValue definition]) later
  have kept := continues.nodes returned
  rwa [List.append_assoc] at kept

/-- What an object declares with different names is imposed by its node, where it has no signatures
or all its parts are clear, and if its signatures depend on no alias, by what is made of it and any
other clear node of the session, whenever that is done. -/
theorem parseValue_imposed (home : Nat) (d : Declarations) (requests later : List Request)
    {entries : List (String × Json)} {n : Node}
    (parsed : ((run home d requests).scope.parseValue (.object entries)).1 = .ok n) :
    ∃ declared t, (entries.mapM (declare (run home d requests).scope.lookup)).run.run
        (run home d requests).scope.state = (.ok declared, t) ∧
      ((namesOf declared).Nodup → declared.filterMap Declared.signature? = [] →
        Imposed declared n) ∧
      ∀ N, 0 < N → N ≤ 2 ^ 53 → AreClear N declared → (namesOf declared).Nodup →
        Imposed declared n ∧
        ((∀ s ∈ declared.filterMap Declared.signature?, s.key.hasAlias = false) →
          let after := run home d (requests ++ .parseValue (.object entries) :: later)
          ∀ r ∈ after.nodes, (∀ k ∈ r.parts, k.constraint.IsClear N) → ∀ m,
            (after.scope.intersect n r).1 = .ok m ∨ (after.scope.intersect r n).1 = .ok m →
              Imposed declared m) := by
  have can := Standard.looked_parsable home
  have before := run_sound can d requests
  have can' : Parsable (run home d requests).scope.home (.looked home) :=
    before.same_home.symm ▸ can
  obtain ⟨u, ran⟩ := Scope.run_of_parseValue parsed
  obtain ⟨declared, t, declares, made⟩ := parse_object_eq_ok ran
  have known := parsed_of_declares can' (Scope.lookup_holds can') before.scope.holds declares
  have within : (Standard.looked home).parsed _ n :=
    (Scope.parseValue_sound can' before.scope (.object entries)).value n parsed
  refine ⟨declared, t, declares, fun distinct unsigned => ?_,
    fun N positive small clear distinct => ⟨?_, ?_⟩⟩
  · exact imposed_of_takes known within.2 fun σ x _ admitted _ _ _ named =>
      made.takes_named_unsigned unsigned admitted distinct named
  · exact made.imposed_below known positive small clear distinct within.2 fun _ => .refl n
  · intro keys after r hr clear' m met
    have sound : after.Sound home d (.looked home) := run_sound can d _
    have hn : n ∈ after.nodes := mem_nodes_of_parseValue d requests later parsed
    have can'' : Parsable after.scope.home (.looked home) := sound.same_home.symm ▸ can
    have clear_n := made.erase_clear positive small (reduced_of_declared known)
        (clear.clear known) distinct keys
    have reduced := (sound.nodes n hn).1
    have reduced' := (sound.nodes r hr).1
    have clear_r := (Node.Clear.of_reduced reduced' clear').erase
    rcases met with met | met
    · exact made.imposed_below known positive small clear distinct
        ((Scope.intersect_sound can'' sound.scope (sound.nodes n hn) (sound.nodes r hr)).value m
          met).2
        fun σ => (Node.below_of_intersect positive small reduced reduced' clear_n clear_r met).1
    · exact made.imposed_below known positive small clear distinct
        ((Scope.intersect_sound can'' sound.scope (sound.nodes r hr) (sound.nodes n hn)).value m
          met).2
        fun σ => (Node.below_of_intersect positive small reduced' reduced clear_r clear_n met).2

end Session

end

namespace Session

open Definition

attribute [local instance] Library.standard

/-- A name after a backslash, and one with a question mark. -/
def escaped : List (String × Json) := [("\\a", .string "string"), ("c?", .string "number")]

def further : List Request := [.parseValue (.object [("b?", .string "string")])]

/-- Both names are imposed by the object and by its intersection with another one. -/
theorem parseValue_imposed_escaped :
    ∃ declared t n r m, ((run 0 .empty []).scope.parseValue (.object escaped)).1 = .ok n ∧
      (escaped.mapM (declare (run 0 .empty []).scope.lookup)).run.run
        (run 0 .empty []).scope.state = (.ok declared, t) ∧
        namesOf declared = ["a", "c"] ∧
          r ∈ (run 0 .empty (.parseValue (.object escaped) :: further)).nodes ∧
          ((run 0 .empty (.parseValue (.object escaped) :: further)).scope.intersect n r).1 =
            .ok m ∧
            m.Allows .unbound none (.object [("a", .string "x")]) ∧ Imposed declared n ∧
              Imposed declared m := by
  have outline : (((escaped.mapM (declare (run 0 .empty []).scope.lookup)).run.run
      (run 0 .empty []).scope.state).1.toOption.map fun declared =>
        (namesOf declared, decide (AreClear 1 declared),
          (declared.filterMap Declared.signature?).length)) =
          some (["a", "c"], true, 0) := by decide +kernel
  have made : (((run 0 .empty []).scope.parseValue (.object escaped)).1.toOption.bind fun n =>
      (run 0 .empty (.parseValue (.object escaped) :: further)).nodes[1]?.bind fun r =>
        (((run 0 .empty (.parseValue (.object escaped) :: further)).scope.intersect n
          r).1.toOption.bind fun m =>
          (m.compile.allows .unbound 9 none (.object [("a", .string "x")])).map fun v =>
            (v.outcome, decide (∀ k ∈ r.parts, k.constraint.IsClear 1)))) =
              some (true, true) := by decide +kernel
  obtain ⟨n, found, made⟩ := Option.bind_eq_some_iff.mp made
  obtain ⟨r, second, made⟩ := Option.bind_eq_some_iff.mp made
  obtain ⟨m, met, made⟩ := Option.bind_eq_some_iff.mp made
  obtain ⟨v, ended, told⟩ := Option.map_eq_some_iff.mp made
  obtain ⟨passed, clear'⟩ := Prod.mk.inj told
  have parsed := Union.toOption_eq_some.mp found
  have met := Union.toOption_eq_some.mp met
  have hr := List.mem_of_getElem? second
  obtain ⟨declared, t, declares, -, imposes⟩ := parseValue_imposed 0 .empty [] further parsed
  rw [declares] at outline
  obtain ⟨named, rest⟩ := Prod.mk.inj (Option.some.inj outline)
  obtain ⟨clear, plain⟩ := Prod.mk.inj rest
  have distinct : (namesOf declared).Nodup := named ▸ by decide
  obtain ⟨here, there⟩ := imposes 1 (by decide) (by decide) (of_decide_eq_true clear) distinct
  have keys : ∀ s ∈ declared.filterMap Declared.signature?, s.key.hasAlias = false :=
    fun s hs => absurd (List.length_eq_zero_iff.mp plain ▸ hs) List.not_mem_nil
  exact ⟨declared, t, n, r, m, parsed, declares, named, hr, met, ⟨9, v, ended, passed⟩, here,
    there keys r hr (of_decide_eq_true clear') m (.inl met)⟩

end Session

end SchemaAlgebra
