import SchemaAlgebra.Proofs.Parts
import SchemaAlgebra.Proofs.RoundTrip

/-!
# Keys in definitions

A definition marks an optional key with a question mark behind it, and puts a backslash in front of
a key that would be read as something else. Behind a backslash no mark is read.
-/
namespace SchemaAlgebra

open Parsing

namespace Entries

variable {α : Type u}

theorem ofList_map {β : Type v} (f : α → β) (es : List (String × α)) :
    ofList (es.map fun (k, v) => (k, f v)) = (ofList es).map fun (k, v) => (k, f v) := by
  have fold (fs : List (String × α)) :
      (es.map fun (k, v) => (k, f v)).foldl (fun acc (k, v) => insert k v acc)
        (fs.map fun (k, v) => (k, f v)) =
        (es.foldl (fun acc (k, v) => insert k v acc) fs).map fun (k, v) => (k, f v) := by
    induction es generalizing fs with
    | nil => rfl
    | cons e es ih => exact (congrArg (List.foldl _ · _) (insert_map f e.1 e.2 fs)).trans (ih _)
  exact fold []

/-- Of two lists without repeated keys the values of the latter count. -/
theorem get?_ofList_append {es fs : List (String × α)} (distinct : (keys es).Nodup)
    (distinct' : (keys fs).Nodup) (name : String) :
    get? name (ofList (es ++ fs)) = (get? name fs).or (get? name es) := by
  have fold {gs : List (String × α)} (distinct : (keys gs).Nodup) (acc : List (String × α)) :
      get? name (gs.foldl (fun acc (k, v) => insert k v acc) acc) = (get? name gs).or
        (get? name acc) := by
    induction gs generalizing acc with
    | nil => rfl
    | cons g gs ih =>
      obtain ⟨fresh, distinct⟩ := List.nodup_cons.mp distinct
      rw [List.foldl_cons, ih distinct, get?_insert, get?_cons]
      split_ifs with here
      · have absent : get? name gs = none := get?_eq_none.mpr fun e he same =>
          fresh (List.mem_map.mpr ⟨e, he, same.trans here⟩)
        rw [absent]
        rfl
      · rfl
  rw [ofList, List.foldl_append, fold distinct', fold distinct, get?_nil, Option.or_none]

theorem get?_eq_some_of_nodup {es : List (String × α)} (distinct : (keys es).Nodup)
    {name : String} {v : α} : get? name es = some v ↔ (name, v) ∈ es := by
  refine ⟨mem_of_get?, fun member => ?_⟩
  induction es with
  | nil => cases member
  | cons e es ih =>
    obtain ⟨fresh, distinct⟩ := List.nodup_cons.mp distinct
    rw [get?_cons]
    rcases List.mem_cons.mp member with rfl | later
    · exact if_pos rfl
    · rw [if_neg fun same => fresh (List.mem_map.mpr ⟨_, later, same⟩), ih distinct later]

theorem renamed {f : String → String} (injective : Function.Injective f)
    {es : List (String × α)} (sorted : Sorted es) :
    (keys (es.map fun (k, v) => (f k, v))).Nodup ∧
      ∀ text v, get? text (es.map fun (k, v) => (f k, v)) = some v ↔
        ∃ k, (k, v) ∈ es ∧ text = f k := by
  have keys_eq : keys (es.map fun (k, v) => (f k, v)) = (keys es).map f := by
    rw [keys, keys, List.map_map, List.map_map]
    rfl
  have distinct : (keys (es.map fun (k, v) => (f k, v))).Nodup := by
    rw [keys_eq]
    exact List.Nodup.map injective (List.pairwise_map.mpr (sorted.imp fun less => less.ne))
  refine ⟨distinct, fun text v => ?_⟩
  rw [get?_eq_some_of_nodup distinct, List.mem_map]
  simp [eq_comm]

end Entries

namespace Definition

/-- Whether the text of a key would be read as something else than the key. -/
def IsMarked (key : String) : Prop :=
  key.toList.getLast? = some '?' ∨ key.toList.head? = some '[' ∨ key.toList.head? = some '\\'

instance : DecidablePred IsMarked := fun _ => inferInstanceAs (Decidable (_ ∨ _ ∨ _))

theorem escapedKey_of_marked {key : String} (marked : IsMarked key) :
    Node.escapedKey key = String.ofList ('\\' :: key.toList) := by
  rw [Node.escapedKey]
  refine if_pos ?_
  simpa [IsMarked, or_assoc] using marked

theorem escapedKey_of_not_marked {key : String} (plain : ¬IsMarked key) :
    Node.escapedKey key = key := by
  rw [Node.escapedKey]
  refine if_neg ?_
  simpa [IsMarked, or_assoc] using plain

theorem Key.ofText_backslash (cs : List Char) :
    Key.ofText (String.ofList ('\\' :: cs)) = .named (String.ofList cs) false := by
  rw [Key.ofText, String.toList_ofList]
  rfl

/-- Text without marks is the name of a required key, and with a question mark behind it of an
optional one. -/
theorem Key.ofText_plain {key : String} (plain : ¬IsMarked key) :
    Key.ofText key = .named key false ∧ Key.ofText (key ++ "?") = .named key true := by
  obtain ⟨last, bracket, backslash⟩ :
      ¬key.toList.getLast? = some '?' ∧ ¬key.toList.head? = some '[' ∧
      ¬key.toList.head? = some '\\' := by simpa [IsMarked] using plain
  rw [← List.head?_reverse] at last
  constructor
  · simp only [Key.ofText]
    split
    · simp_all
    · simp_all
    · simp_all
    · rfl
  · have behind : (key ++ "?").toList = key.toList ++ ['?'] := String.toList_append
    simp only [Key.ofText, behind, List.reverse_append, List.reverse_singleton,
      List.singleton_append]
    split
    · simp_all
    · cases text : key.toList <;> simp_all
    · rename_i same _
      obtain ⟨-, rfl⟩ := List.cons.inj same
      rw [List.reverse_reverse, String.ofList_toList]
    · simp_all

theorem Key.ofText_required (key : String) :
    Key.ofText (Node.escapedKey key) = .named key false := by
  by_cases marked : IsMarked key
  · rw [escapedKey_of_marked marked, ofText_backslash, String.ofList_toList]
  · rw [escapedKey_of_not_marked marked, (ofText_plain marked).1]

/-- The mark of an optional key is read as part of it if there is a backslash in front of the key.
-/
theorem Key.ofText_optional (key : String) : Key.ofText (Node.escapedKey key ++ "?") =
    if IsMarked key then .named (key ++ "?") false else .named key true := by
  split_ifs with marked
  · rw [escapedKey_of_marked marked]
    have text : String.ofList ('\\' :: key.toList) ++ "?" = String.ofList
        ('\\' :: (key ++ "?").toList) := by
      rw [String.toList_append]
      exact String.toList_injective (by simp)
    rw [text, ofText_backslash, String.ofList_toList]
  · rw [escapedKey_of_not_marked marked, (ofText_plain marked).2]

theorem escapedKey_injective : Function.Injective Node.escapedKey := by
  intro key other same
  have read := Key.ofText_required key
  rw [same, Key.ofText_required] at read
  exact (Key.named.inj read).1.symm

/-- The text of an optional key is that of a required one if its mark is read as part of it. -/
theorem required_of_optional_text {key other : String}
    (same : Node.escapedKey key ++ "?" = Node.escapedKey other) :
    IsMarked key ∧ other = key ++ "?" := by
  have read := Key.ofText_optional key
  rw [same, Key.ofText_required] at read
  split_ifs at read with marked
  · exact ⟨marked, (Key.named.inj read).1⟩
  · exact absurd (Key.named.inj read).2 Bool.false_ne_true

theorem isMarked_append {key : String} : IsMarked (key ++ "?") := by
  have behind : (key ++ "?").toList = key.toList ++ ['?'] := String.toList_append
  exact .inl (by rw [behind, List.getLast?_concat])

theorem escapedKey_append_mark {key : String} (marked : IsMarked key) :
    Node.escapedKey (key ++ "?") = Node.escapedKey key ++ "?" := by
  rw [escapedKey_of_marked marked, escapedKey_of_marked isMarked_append, String.toList_append]
  exact String.toList_injective (by simp)

end Definition

open Definition

namespace Props

theorem map_map {α β γ : Type u} (f : α → β) (g : β → γ) (p : Props α) :
    (p.map f).map g = p.map (g ∘ f) := by
  obtain ⟨required, optional, index, sequence⟩ := p
  cases sequence <;> simp [map, Sequence.map, Function.comp_def]

variable {α : Type u}

/-- The texts of named keys in a definition, with their values. -/
def keyTexts (p : Props α) : List (String × α) :=
  Entries.ofList (p.required.map (fun (key, v) => (Node.escapedKey key, v)) ++
    p.optional.map fun (key, v) => (Node.escapedKey key ++ "?", v))

/-- What a named key comes back as. The mark of an optional key with a backslash in front becomes
part of a required key, and a required key of that text gives way to it. -/
inductive ComesBack (p : Props α) : String → α → Bool → Prop
  | required {key : String} {v : α} (found : p.get? key = some (v, true))
      (alone : ∀ other w, p.get? other = some (w, false) → IsMarked other →
        key ≠ other ++ "?") : ComesBack p key v true
  | optional {key : String} {v : α} (found : p.get? key = some (v, false))
    (plain : ¬IsMarked key) :
      ComesBack p key v false
  | marked {key other : String} {v : α} (found : p.get? other = some (v, false))
    (marked : IsMarked other)
      (behind : key = other ++ "?") : ComesBack p key v true

def keyText (key : String) (required : Bool) : String :=
  if required then Node.escapedKey key else key ++ "?"

variable {p : Props α} {key : String} {v w : α} {required required' : Bool}

theorem ComesBack.ofText (h : p.ComesBack key v required) :
    Key.ofText (keyText key required) = .named key !required := by
  cases h with
  | required => exact Key.ofText_required key
  | optional _ plain => exact (Key.ofText_plain plain).2
  | marked => exact Key.ofText_required _

theorem ComesBack.found (h : p.ComesBack key v required) :
    ∃ other mark, p.get? other = some (v, mark) := by
  cases h with
  | required found => exact ⟨_, _, found⟩
  | optional found => exact ⟨_, _, found⟩
  | marked found => exact ⟨_, _, found⟩

theorem ComesBack.required_unique (h : p.ComesBack key v required)
    (h' : p.ComesBack key w required') : required = required' := by
  cases h with
  | required found => cases h' with
    | optional found' => exact congrArg Prod.snd (Option.some.inj (found.symm.trans found'))
    | _ => rfl
  | optional found plain => cases h' with
    | required found' => exact congrArg Prod.snd (Option.some.inj (found.symm.trans found'))
    | optional => rfl
    | marked _ _ behind => exact absurd (behind ▸ isMarked_append) plain
  | marked _ _ behind => cases h' with
    | optional _ plain => exact absurd (behind ▸ isMarked_append) plain
    | _ => rfl

theorem get?_eq_some (tidy : p.Tidy) :
    p.get? key = some (v, required) ↔ (key, v) ∈ if required then p.required else p.optional :=
  ⟨mem_of_get?, get?_of_mem tidy.nodup (e := (key, v))⟩

theorem keyTexts_sorted : Entries.Sorted p.keyTexts := Entries.sorted_ofList _

theorem mem_keyTexts_iff (tidy : p.Tidy) {text : String} : (text, v) ∈ p.keyTexts ↔
    (∃ key, p.get? key = some (v, false) ∧ text = Node.escapedKey key ++ "?") ∨
      (∃ key, p.get? key = some (v, true) ∧ text = Node.escapedKey key) ∧
        ∀ key w, p.get? key = some (w, false) → text ≠ Node.escapedKey key ++ "?" := by
  obtain ⟨distinct, optional⟩ := Entries.renamed
    (fun key other same => escapedKey_injective ((String.append_left_inj "?").mp same))
      tidy.optional
  obtain ⟨distinct', required⟩ := Entries.renamed escapedKey_injective tidy.required
  rw [← Entries.get?_eq_some keyTexts_sorted, keyTexts,
    Entries.get?_ofList_append distinct' distinct,
    Option.or_eq_some_iff, optional, required, Entries.get?_eq_none]
  simp only [get?_eq_some tidy, Bool.false_eq_true, if_false, if_true]
  refine or_congr Iff.rfl (and_comm.trans (and_congr Iff.rfl ?_))
  exact ⟨fun other key w h same => other _ (List.mem_map_of_mem h) same.symm,
      fun other e he same => by
    obtain ⟨⟨key, w⟩, h, rfl⟩ := List.mem_map.mp he
    exact other key w h same.symm⟩

/-- The texts of a definition are those of the keys that come back. -/
theorem mem_keyTexts (tidy : p.Tidy) {text : String} :
    (text, v) ∈ p.keyTexts ↔
      ∃ key required, p.ComesBack key v required ∧ text = keyText key required := by
  rw [mem_keyTexts_iff tidy]
  constructor
  · rintro (⟨key, found, rfl⟩ | ⟨⟨key, found, rfl⟩, other⟩)
    · by_cases marked : IsMarked key
      · exact ⟨key ++ "?", true, .marked found marked rfl,
          (escapedKey_append_mark marked).symm⟩
      · exact ⟨key, false, .optional found
          marked, by rw [escapedKey_of_not_marked marked]; rfl⟩
    · refine ⟨key, true, .required found fun name w h marked same => other name w h ?_, rfl⟩
      rw [same, escapedKey_append_mark marked]
  · rintro ⟨key, required, back, rfl⟩
    cases back with
    | required found alone =>
      refine .inr ⟨⟨key, found, rfl⟩, fun name w h same => ?_⟩
      obtain ⟨marked, behind⟩ := required_of_optional_text same.symm
      exact alone name w h marked behind
    | optional found plain =>
      exact .inl ⟨key, found, by rw [escapedKey_of_not_marked plain]; rfl⟩
    | marked found marked behind =>
      refine .inl ⟨_, found, ?_⟩
      rw [behind]
      exact escapedKey_append_mark marked

/-- What comes back is what there was if no optional key gets a backslash. -/
theorem comesBack_iff (plain : ∀ key v, p.get? key = some (v, false) → ¬IsMarked key) :
    p.ComesBack key v required ↔ p.get? key = some (v, required) := by
  constructor
  · intro back
    cases back with
    | required found => exact found
    | optional found => exact found
    | marked found marked => exact absurd marked (plain _ _ found)
  · intro found
    cases required with
    | true => exact .required found fun other w h marked => absurd marked (plain other w h)
    | false => exact .optional found (plain key v found)

theorem not_comesBack_optional (marked : IsMarked key) : ¬p.ComesBack key v false := by
  intro back
  cases back with
  | optional _ plain => exact plain marked

/-- Properties with the same named keys and nothing else are the same. -/
theorem ext_get? {q : Props α} (tidy : p.Tidy) (tidy' : q.Tidy)
    (same : ∀ key, p.get? key = q.get? key) (index : p.index = q.index)
    (sequence : p.sequence = q.sequence) : p = q := by
  have entries (required : Bool) {es fs : List (String × α)} (sorted : Entries.Sorted es)
      (sorted' : Entries.Sorted fs)
      (left : ∀ key v, p.get? key = some (v, required) ↔ (key, v) ∈ es)
      (right : ∀ key v, q.get? key = some (v, required) ↔ (key, v) ∈ fs) : es = fs := by
    refine Entries.ext sorted sorted' fun key => Option.ext fun v => ?_
    rw [Entries.get?_eq_some sorted, Entries.get?_eq_some sorted', ← left, ← right, same]
  have required := entries true tidy.required tidy'.required (fun _ _ => get?_eq_some tidy)
    fun _ _ => get?_eq_some tidy'
  have optional := entries false tidy.optional tidy'.optional (fun _ _ => get?_eq_some tidy)
    fun _ _ => get?_eq_some tidy'
  obtain ⟨_, _, _, _⟩ := p
  obtain ⟨_, _, _, _⟩ := q
  cases required
  cases optional
  cases index
  cases sequence
  rfl

end Props

namespace Definition

variable [Library]

theorem yields_parseExpression {lookup : Lookup} {text : String} {n : Node}
    (scanned : Scan.all text = [.ok (.word text), .ok .finish])
    (word : Result (ExpressionState.word lookup text) (some n))
    (united : (determinateUnion [n]).value id = .ok n) (allowOptional : Bool) :
    Yields (parseExpression lookup allowOptional text) fun p => p.optional = false ∧
      p.node.erase = n := by
  rw [parseExpression, scanned]
  simp only [ExpressionState.steps, ExpressionState.step, ExpressionState.start,
    ExpressionState.operand, bind_assoc, pure_bind]
  refine word.yields.bind fun v hv => ?_
  have group : Yields (unite [v]) fun m => m.erase = n :=
    yields_unite (by rwa [List.map_singleton, hv])
  simp only [ExpressionState.operator, ExpressionState.conclude, ExpressionState.finishGroup,
    ExpressionState.conjoin,
    ExpressionState.checkLeftBound, Group.empty, List.isEmpty_nil, if_true, pure_bind,
      List.nil_append, bind_assoc]
  exact group.bind fun m hm => .pure ⟨rfl, hm⟩

/-- The node that the keyword of a domain stands for. -/
def keywordNode : Domain → Node
  | .null => .of (.literal .null)
  | d => .of (.domain d)

theorem yields_keyword {lookup : Lookup} (bare : lookup.Bare) (d : Domain) (allowOptional : Bool) :
    Yields (parseExpression lookup allowOptional d.name) fun p =>
      p.optional = false ∧ p.node.erase = keywordNode d := by
  cases d with
  | null =>
    exact yields_parseExpression rfl (Descent.result_keyword bare rfl rfl (result_literal _)) rfl
      allowOptional
  | _ =>
    exact yields_parseExpression rfl (Descent.result_keyword bare rfl rfl (result_constraint rfl))
      rfl allowOptional

/-- Behind a key that is named, the definition stands for the node. -/
def StandsFor (lookup : Lookup) (definition : Json) (n : Node) : Prop :=
  ∀ text name optional, Key.ofText text = .named name optional →
    Yields (declare lookup (text, definition)) fun e => ∃ v, e = .named name v optional ∧
      v.erase = n.erase

theorem standsFor_text {lookup : Lookup} {text : String} {n : Node}
    (read : Yields (parseExpression lookup true text) fun p => p.optional = false ∧
      p.node.erase = n.erase) : StandsFor lookup (.string text) n := by
  intro key name optional named
  simp only [declare, named]
  refine read.bind fun p hp => .pure ⟨p.node, ?_, hp.2⟩
  rw [hp.1, Bool.or_false]

theorem standsFor_keyword {lookup : Lookup} (bare : lookup.Bare) (d : Domain) :
    StandsFor lookup (.string d.name) (keywordNode d) := by
  have erased : (keywordNode d).erase = keywordNode d := by cases d <;> rfl
  refine standsFor_text ?_
  rw [erased]
  exact yields_keyword bare d true

section

variable {α : Type} {definition : α → Json} {node : α → Node} {lookup : Lookup}
  {p : Props α} {es : List (String × α)} {declared : List Declared}

variable (node) in
def Declares (e : String × α) (declared : Declared) : Prop :=
  ∃ name optional v, Key.ofText e.1 = .named name optional ∧
    declared = .named name v optional ∧ v.erase = (node e.2).erase

theorem yields_declares (stand : ∀ e ∈ es, StandsFor lookup (definition e.2) (node e.2))
    (named : ∀ e ∈ es, ∃ name optional, Key.ofText e.1 = .named name optional) :
    Yields ((es.map fun (text, d) => (text, definition d)).mapM (declare lookup))
      (List.Forall₂ (Declares node) es) := by
  induction es with
  | nil => exact .pure .nil
  | cons e es ih =>
    obtain ⟨stands, stand⟩ := List.forall_mem_cons.mp stand
    obtain ⟨⟨name, optional, named⟩, later⟩ := List.forall_mem_cons.mp named
    rw [List.map_cons, List.mapM_cons]
    refine (stands _ name optional named).bind fun first hf => (ih stand later).bind fun rest hr =>
      .pure (.cons ?_ hr)
    obtain ⟨v, same, erased⟩ := hf
    exact ⟨name, optional, v, named, same, erased⟩

omit [Library] in
theorem unsigned_of_declares (declares : List.Forall₂ (Declares node) es declared) :
    (propsOf declared).index = [] := by
  have unsigned : declared.filterMap Declared.signature? = [] := by
    induction declares with
    | nil => rfl
    | cons first _ ih =>
      obtain ⟨_, _, _, -, rfl, -⟩ := first
      exact ih
  rw [propsOf, foldl_addTo_index, unsigned]
  rfl

/-- Where there are neither signatures nor items the node of an object is made of the named keys. -/
theorem yields_finishObject {p : Props Node} (unsigned : p.index = [])
    (unordered : p.sequence = none) :
    Yields (finishObject p) fun n => n.same (Node.objectNode p) = true := by
  intro s
  obtain ⟨required, optional, _, _⟩ := p
  subst unsigned unordered
  exact ⟨_, _, run_build (Traced.object _) s,
    Traced.object_same (ScopeState.settled_same _ s) _⟩

omit [Library] in
theorem exists_of_mem_namesOf (declares : List.Forall₂ (Declares node) es declared)
    {name : String} (h : name ∈ namesOf declared) :
    ∃ e ∈ es, ∃ optional v, Key.ofText e.1 = .named name optional ∧
      .named name v optional ∈ declared ∧ v.erase = (node e.2).erase := by
  induction declares with
  | nil => cases h
  | cons first _ ih =>
    obtain ⟨other, optional, v, named, rfl, erased⟩ := first
    rcases List.mem_cons.mp h with rfl | later
    · exact ⟨_, List.mem_cons_self, optional, v, named, List.mem_cons_self, erased⟩
    · obtain ⟨e, he, o, w, named, declared, erased⟩ := ih later
      exact ⟨e, List.mem_cons_of_mem _ he, o, w, named, List.mem_cons_of_mem _ declared, erased⟩

omit [Library] in
theorem nodup_namesOf (declares : List.Forall₂ (Declares node) es declared)
    (sorted : Entries.Sorted es)
    (back : ∀ e ∈ es, ∃ key required, p.ComesBack key e.2 required ∧
      e.1 = Props.keyText key required) : (namesOf declared).Nodup := by
  induction declares with
  | nil => exact List.nodup_nil
  | @cons e x es xs first rest ih =>
    obtain ⟨before, later⟩ := Entries.sorted_cons.mp sorted
    obtain ⟨here, back⟩ := List.forall_mem_cons.mp back
    obtain ⟨name, optional, v, named, rfl, -⟩ := first
    refine List.nodup_cons.mpr ⟨fun repeated => ?_, ih later back⟩
    obtain ⟨f, hf, o, w, named', -, -⟩ := exists_of_mem_namesOf rest repeated
    obtain ⟨key, required, comes, text⟩ := here
    obtain ⟨key', required', comes', text'⟩ := back f hf
    rw [text, comes.ofText] at named
    rw [text', comes'.ofText] at named'
    obtain ⟨rfl, -⟩ := Key.named.inj named
    obtain ⟨rfl, -⟩ := Key.named.inj named'
    rw [comes.required_unique comes', ← text'] at text
    exact absurd text (before f hf).ne

omit [Library] in
theorem get?_propsOf (tidy : p.Tidy)
    (declares : List.Forall₂ (Declares node) p.keyTexts declared) :
    (propsOf declared).Tidy ∧ ∀ key v required, ((propsOf declared).map Node.erase).get? key =
      some (v, required) ↔ ∃ d, p.ComesBack key d required ∧ v = (node d).erase := by
  have back (e : String × α) (he : e ∈ p.keyTexts) := (Props.mem_keyTexts tidy).mp he
  obtain ⟨kept, found⟩ :=
    foldl_addTo_named Props.tidy_empty (nodup_namesOf declares Props.keyTexts_sorted back)
    fun _ _ => rfl
  refine ⟨kept, fun key v required => ?_⟩
  rw [Props.get?_map]
  constructor
  · intro declared_here
    obtain ⟨⟨w, r⟩, here, same⟩ := Option.map_eq_some_iff.mp declared_here
    cases same
    have named : key ∈ namesOf declared := by
      by_contra undeclared
      rw [propsOf, get?_foldl_addTo undeclared] at here
      cases here
    obtain ⟨e, he, optional, v', read, listed, erased⟩ := exists_of_mem_namesOf declares named
    obtain ⟨name, r', comes, text⟩ := back e he
    rw [text, comes.ofText] at read
    cases read
    have same := (found _ _ _ listed).symm.trans here
    rw [Bool.not_not] at same
    cases same
    exact ⟨e.2, comes, erased⟩
  · rintro ⟨d, comes, rfl⟩
    have written : (Props.keyText key required, d) ∈ p.keyTexts :=
      (Props.mem_keyTexts tidy).mpr ⟨key, required, comes, rfl⟩
    obtain ⟨x, hx, name, optional, v, read, rfl, erased⟩ :
        ∃ x ∈ declared, Declares node (Props.keyText key required, d) x := by
      obtain ⟨i, hi, same⟩ := List.getElem_of_mem written
      have bound : i < declared.length := declares.length_eq ▸ hi
      have here : Declares node p.keyTexts[i] declared[i] := declares.get hi bound
      exact ⟨declared[i], List.getElem_mem bound, same ▸ here⟩
    rw [comes.ofText] at read
    cases read
    refine Option.map_eq_some_iff.mpr ⟨(v, !!required), found _ _ _ hx, ?_⟩
    rw [Bool.not_not]
    exact congrArg (·, required) erased

/-- An object with the texts of the keys is parsed to the object of the keys that come back. -/
theorem yields_object (tidy : p.Tidy)
    (stand : ∀ v ∈ p.values, StandsFor lookup (definition v) (node v)) :
    Yields (parse lookup (.object (p.keyTexts.map fun (text, v) => (text, definition v)))) fun n =>
      ∃ q : Props Node, n.same (Node.objectNode q) = true ∧ q.Tidy ∧ q.index = [] ∧
        q.sequence = none ∧ q.map Node.erase = q ∧
          ∀ key v required, q.get? key = some (v, required) ↔
            ∃ d, p.ComesBack key d required ∧ v = (node d).erase := by
  have back (e : String × α) (he : e ∈ p.keyTexts) := (Props.mem_keyTexts tidy).mp he
  have named (e : String × α) (he : e ∈ p.keyTexts) :
      ∃ name optional, Key.ofText e.1 = .named name optional := by
    obtain ⟨key, required, comes, text⟩ := back e he
    exact ⟨key, !required, by rw [text, comes.ofText]⟩
  have stands (e : String × α) (he : e ∈ p.keyTexts) :
      StandsFor lookup (definition e.2) (node e.2) := by
    obtain ⟨key, required, comes, -⟩ := back e he
    obtain ⟨other, mark, found⟩ := comes.found
    exact stand _ (Props.mem_values_of_get? found)
  rw [parse, parseEntries_eq, bind_assoc]
  refine (yields_declares stands named).bind fun declared listed => ?_
  rw [pure_bind]
  intro s
  have unsigned := unsigned_of_declares listed
  have unordered : (propsOf declared).sequence = none := foldl_addTo_sequence
  obtain ⟨n, t, ran, same⟩ := yields_finishObject unsigned unordered s
  obtain ⟨kept, back⟩ := get?_propsOf tidy listed
  have erased : ((propsOf declared).map Node.erase).map Node.erase =
      (propsOf declared).map Node.erase := by
    rw [Props.map_map]
    exact congrArg (Props.map · _) (funext Node.erase_erase)
  refine ⟨n, t, ran, (propsOf declared).map Node.erase, ?_, kept.map _, ?_, ?_, erased, back⟩
  · exact Node.same_trans same (Node.objectNode_same (Props.areSame_iff.mpr erased.symm))
  · rw [Props.map, unsigned]
    rfl
  · rw [Props.map, unordered]
    rfl

end

end Definition

namespace Node

theorem objectNode_same_iff {p q : Props Node} : (objectNode p).same (objectNode q) = true ↔
    p.AreSame q := by
  refine ⟨fun same => ?_, objectNode_same⟩
  obtain ⟨r, equal, areSame⟩ := exists_objectNode same
  cases equal
  exact areSame

section

variable [Library]

variable {α : Type} {text : α → Json} {node : α → Node}
  (written : ∀ v, (node v).definition = text v)
include written

omit [Library]

theorem entryDefinitions_map (mark : String) (es : List (String × α)) :
    entryDefinitions mark (es.map fun (key, v) => (key, node v)) =
      es.map fun (key, v) => (escapedKey key ++ mark, text v) := by
  induction es with
  | nil => rfl
  | cons e es ih => rw [List.map_cons, List.map_cons, entryDefinitions, ih, written]

/-- The definition of an object with named keys is made of their texts. -/
theorem definition_objectNode {p : Props α} (unsigned : p.index = [])
    (unordered : p.sequence = none) :
    (objectNode (p.map node)).definition =
      .object (p.keyTexts.map fun (key, v) => (key, text v)) := by
  obtain ⟨required, optional, _, _⟩ := p
  subst unsigned unordered
  have object : (objectNode (Props.map node ⟨required, optional, [], none⟩)).definition =
      objectOf (entryDefinitions "" (required.map fun (key, v) => (key, node v)))
        (entryDefinitions "?" (optional.map fun (key, v) => (key, node v))) [] := by
    simp [objectNode, definition, orText, text?, gather?, isArrayBasis, constraint, structural?,
      others, chain, indexDefinitions, Props.map]
  rw [object, objectOf, entryDefinitions_map written, entryDefinitions_map written, List.append_nil]
  refine congrArg Json.object (.trans ?_ (Entries.ofList_map text _))
  simp only [List.map_append, List.map_map, Function.comp_def, String.append_empty]

end

theorem definition_keywordNode (d : Domain) : (keywordNode d).definition = .string d.name := by
  cases d <;> simp [keywordNode, definition, orText, text?, Domain.name, Literal.expression]

end Node

theorem Props.eq_map_of_comesBack {α : Type} {node : α → Node} {p : Props α} {q : Props Node}
    (tidy : p.Tidy) (unsigned : p.index = []) (unordered : p.sequence = none)
    (plain : ∀ key v, p.get? key = some (v, false) → ¬IsMarked key)
    (tidy' : q.Tidy) (unsigned' : q.index = []) (unordered' : q.sequence = none)
    (back : ∀ key v required, q.get? key = some (v, required) ↔
      ∃ d, p.ComesBack key d required ∧ v = (node d).erase) :
    q = (p.map node).map Node.erase := by
  rw [Props.map_map]
  refine Props.ext_get? tidy' (tidy.map _) (fun key => Option.ext fun (v, required) => ?_) ?_ ?_
  · rw [back]
    simp only [Props.comesBack_iff plain, Props.get?_map, Option.map_eq_some_iff, Prod.mk.injEq,
      Prod.exists]
    exact ⟨fun ⟨d, found, same⟩ => ⟨d, required, found, same.symm, rfl⟩,
      fun ⟨d, _, found, same, mark⟩ => ⟨d, mark ▸ found, same.symm⟩⟩
  · rw [Props.map, unsigned, unsigned']
    rfl
  · rw [Props.map, unordered, unordered']
    rfl

/-- The definition of an object with named keys is parsed to the object of the keys that come back.
It is the same object exactly if no optional key gets a backslash. -/
theorem Scope.parseValue_keys [Library] {s : Scope} (empty : s.declarations.aliases = [])
    {p : Props Domain} (tidy : p.Tidy) (unsigned : p.index = []) (unordered : p.sequence = none) :
    ∃ (m : Node) (q : Props Node),
      (s.parseValue (Node.objectNode (p.map keywordNode)).definition).1 = .ok m ∧
      m.same (Node.objectNode q) = true ∧
      (∀ key v required, q.get? key = some (v, required) ↔
        ∃ d, p.ComesBack key d required ∧ v = keywordNode d) ∧
      (m.same (Node.objectNode (p.map keywordNode)) = true ↔
        ∀ key d, p.get? key = some (d, false) → ¬IsMarked key) ∧
      (m.same (Node.objectNode (p.map keywordNode)) = true →
        m.digest = (Node.objectNode (p.map keywordNode)).digest) := by
  have erased (d : Domain) : (keywordNode d).erase = keywordNode d := by cases d <;> rfl
  have bare : (p.map keywordNode).map Node.erase = p.map keywordNode := by
    rw [Props.map_map]
    exact congrArg (Props.map · p) (funext erased)
  obtain ⟨m, parsed, q, made, tidy', unsigned', unordered', bare', back⟩ :=
    noted_of_yields _ (yields_object tidy fun d _ => standsFor_keyword (lookup_bare empty) d)
  rw [← Node.definition_objectNode Node.definition_keywordNode unsigned unordered] at parsed
  have exact : m.same (Node.objectNode (p.map keywordNode)) = true ↔ q = p.map keywordNode := by
    rw [Node.same_iff, Node.same_iff.mp made, ← Node.same_iff, Node.objectNode_same_iff,
      Props.areSame_iff, bare, bare']
  refine ⟨m, q, parsed, made, fun key v required => ?_, ?_,
    fun same => congrArg Digest.ofText (Node.key_congr same)⟩
  · simp only [back, erased]
  · rw [exact]
    refine ⟨fun equal key d found marked => ?_, fun plain => ?_⟩
    · have optional : (p.map keywordNode).get? key = some (keywordNode d, false) := by
        rw [Props.get?_map, found]
        rfl
      rw [← equal, back] at optional
      obtain ⟨e, comes, -⟩ := optional
      exact Props.not_comesBack_optional marked comes
    · rw [Props.eq_map_of_comesBack tidy unsigned unordered plain tidy' unsigned' unordered' back,
        bare]

attribute [local instance] Library.standard in
/-- The optional key `[x` comes back as the required key `[x?`; a required key in brackets and an
optional one without marks come back as they are. -/
theorem Scope.parseValue_keys_brackets :
    (∃ (m : Node) (q : Props Node),
      ((ofDeclarations 0 .empty).parseValue (.object [("\\[x?", .string "string")])).1 = .ok m ∧
        q.get? "[x?" = some (keywordNode .string, true) ∧
        m.same (Node.objectNode q) = true ∧
        m.same (Node.objectNode ⟨[], [("[x", keywordNode .string)], [], none⟩) = false) ∧
    ∃ m : Node, ((ofDeclarations 0 .empty).parseValue
        (.object [("\\[k]", .string "string"), ("a?", .string "null")])).1 = .ok m ∧
      m.same (Node.objectNode ⟨[("[k]", keywordNode .string)], [("a", keywordNode .null)], [],
        none⟩) = true := by
  constructor
  · have tidy : (⟨[], [("[x", .string)], [], none⟩ : Props Domain).Tidy :=
      ⟨⟨Entries.sorted_nil, List.pairwise_singleton _ _⟩, nofun⟩
    obtain ⟨m, q, parsed, same, back, exact, -⟩ :=
      parseValue_keys (s := ofDeclarations 0 .empty) rfl tidy rfl rfl
    rw [Node.definition_objectNode Node.definition_keywordNode rfl rfl] at parsed
    have found : (⟨[], [("[x", .string)], [], none⟩ : Props Domain).get? "[x" =
        some (.string, false) := rfl
    refine ⟨m, q, parsed, (back _ _ _).mpr ⟨.string, .marked found (by decide) rfl, rfl⟩,
      same, Bool.eq_false_iff.mpr fun again => ?_⟩
    exact exact.mp again "[x" .string rfl (by decide)
  · have tidy : (⟨[("[k]", .string)], [("a", .null)], [], none⟩ : Props Domain).Tidy := by
      refine ⟨⟨List.pairwise_singleton _ _, List.pairwise_singleton _ _⟩,
        fun key v w required optional => ?_⟩
      cases List.mem_singleton.mp (Entries.mem_of_get? required)
      exact absurd (List.mem_singleton.mp (Entries.mem_of_get? optional)) (by simp)
    obtain ⟨m, q, parsed, -, -, exact, -⟩ :=
      parseValue_keys (s := ofDeclarations 0 .empty) rfl tidy rfl rfl
    rw [Node.definition_objectNode Node.definition_keywordNode rfl rfl] at parsed
    refine ⟨m, parsed, exact.mpr fun key d found => ?_⟩
    cases List.mem_singleton.mp (Props.mem_of_get? found)
    decide

end SchemaAlgebra
