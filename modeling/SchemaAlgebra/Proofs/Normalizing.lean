import SchemaAlgebra.Proofs.Shapes

/-!
# Narrowing by signatures

Normalising puts below the value of a signature the values of all named keys that the signature
matches, and changes nothing else. With that, intersected properties are below both sides.
-/
namespace SchemaAlgebra

theorem Attempt.Ensures.and_outcome {α : Type} {j : Judging} {x : Attempt α} {Q R S : α → Prop}
    {E : Disjoint → Prop} (h : Ensures j x Q E) (known : ∀ a, x.outcome j.rep = .ok a → R a)
    (both : ∀ a, Q a → R a → S a) : Ensures j x S E := by
  intro events
  have ensured := h events
  rw [show x.run.value j.rep = x.outcome j.rep from rfl] at ensured ⊢
  generalize x.outcome j.rep = o at ensured known
  cases o with
  | ok a => exact ⟨both a ensured.1 (known a rfl), ensured.2⟩
  | error d => exact ensured

namespace Properties

/-- From the first properties to the second nothing changes but the values of named keys. -/
structure Keeps (p q : Props Node) : Prop where
  index : q.index = p.index
  sequence : q.sequence = p.sequence
  sorted : q.Sorted
  tidy : p.Tidy → q.Tidy
  named : ∀ name, (q.get? name).isSome = (p.get? name).isSome

namespace Keeps

variable {p q : Props Node}

theorem refl (sorted : p.Sorted) : Keeps p p := ⟨rfl, rfl, sorted, id, fun _ => rfl⟩

theorem trans {r : Props Node} (h : Keeps p q) (h' : Keeps q r) : Keeps p r :=
  ⟨h'.index.trans h.index, h'.sequence.trans h.sequence, h'.sorted,
    fun tidy => h'.tidy (h.tidy tidy),
    fun name => (h'.named name).trans (h.named name)⟩

theorem insert (sorted : p.Sorted) {key : String} (found : (p.get? key).isSome) (v : Node)
    (required : Bool) : Keeps p (p.insert key v required) := by
  have parts : (p.insert key v required).index = p.index ∧
      (p.insert key v required).sequence = p.sequence := by
    cases required <;> exact ⟨rfl, rfl⟩
  refine ⟨parts.1, parts.2, sorted.insert key v required, fun tidy => tidy.insert key v required,
    fun name => ?_⟩
  rw [Props.get?_insert sorted]
  split_ifs with same
  · exact same ▸ found.symm
  · rfl

end Keeps

variable [Library]

section

variable (meet : Meet) (rep : Node → Node)

theorem narrowKey_keeps (s : Signature Node) {d : Draft} (sorted : d.props.Sorted) (key : String) :
    Keeps d.props ((narrowKey meet s d key).value rep).props := by
  unfold narrowKey
  rw [Traced.value_bind]
  split_ifs
  · exact .refl sorted
  · cases found : d.props.get? key with
    | none => exact .refl sorted
    | some entry =>
      obtain ⟨v, required⟩ := entry
      have placed (w : Node) (r : Bool) : Keeps d.props (d.set key w r).props :=
        .insert sorted (found ▸ rfl) w r
      dsimp only
      rw [Traced.value_bind]
      split
      · rw [Traced.value_pure]
        split_ifs
        · exact .refl sorted
        · exact placed _ _
      · split_ifs
        · exact .refl sorted
        · exact placed _ _

theorem narrowKeys_keeps (s : Signature Node) {d : Draft} (sorted : d.props.Sorted)
    (keys : List String) : Keeps d.props ((narrowKeys meet s d keys).value rep).props := by
  induction keys generalizing d with
  | nil => exact .refl sorted
  | cons key r ih =>
    have first := narrowKey_keeps meet rep s sorted key
    rw [narrowKeys, Traced.value_bind]
    exact first.trans (ih first.sorted)

theorem narrowAll_keeps {d : Draft} (sorted : d.props.Sorted) (index : List (Signature Node)) :
    Keeps d.props ((narrowAll meet d index).value rep).props := by
  induction index generalizing d with
  | nil => exact .refl sorted
  | cons s r ih =>
    rw [narrowAll]
    split_ifs
    · exact ih sorted
    · have first := narrowKeys_keeps meet rep s sorted d.props.namedKeys
      rw [Traced.value_bind]
      exact first.trans (ih first.sorted)

/-- In normal form the same keys are named, and there are the same signatures. -/
theorem normalize_keeps {p q : Props Node} (sorted : p.Sorted)
    (normal : (normalize meet p).outcome rep = .ok q) :
    Keeps { p with index := sortedIndex p.index } q := by
  rw [normalize] at normal
  simp only [Attempt.outcome_bind, Attempt.outcome_monadLift, Except.bind] at normal
  have start : Props.Sorted { p with index := sortedIndex p.index } :=
    ⟨sorted.required, sorted.optional⟩
  have narrowed := narrowAll_keeps meet rep
      (d := ⟨{ p with index := sortedIndex p.index }, .none⟩) start (sortedIndex p.index)
  generalize (narrowAll meet ⟨{ p with index := sortedIndex p.index }, .none⟩
    (sortedIndex p.index)).value rep = d at normal narrowed
  have same : ((refuteRequired d).value rep).props = d.props := by
    unfold refuteRequired
    split_ifs
    · rfl
    · exact foldl_presence_props _ _ d
  rw [Draft.finish] at normal
  split_ifs at normal
  · cases normal
    exact same ▸ narrowed
  · cases normal

end

/-- From the first draft to the second named keys get narrower values, unless there are reasons. -/
structure Draft.Narrows (N : Nat) (σ : String → Json → Bool) (d e : Draft) : Prop where
  kept : e.Kept N
  reasons : e.reasons.isEmpty = true → d.reasons.isEmpty = true
  named : e.reasons.isEmpty = true → ∀ name, Slims σ (d.props.get? name) (e.props.get? name)

/-- Unless there are reasons, the value under a key that the signature matches is below that of the
signature. -/
def Draft.Heeds (σ : String → Json → Bool) (s : Signature Node) (d : Draft)
    (key : String) : Prop :=
  d.reasons.isEmpty = true → s.key.admits (.string key) = true →
    ∀ v required, d.props.get? key = some (v, required) → v.Below σ s.value

variable {N : Nat} {σ : String → Json → Bool} {d e f : Draft}

namespace Draft.Narrows

theorem refl (h : d.Kept N) : d.Narrows N σ d := ⟨h, id, fun _ _ => .refl _⟩

theorem trans (h : d.Narrows N σ e) (h' : e.Narrows N σ f) : d.Narrows N σ f :=
  ⟨h'.kept, fun none => h.reasons (h'.reasons none),
    fun none name => (h.named (h'.reasons none) name).trans (h'.named none name)⟩

theorem set (h : d.Kept N) {key : String} {v w : Node} {required : Bool}
    (found : d.props.get? key = some (v, required)) (clear : w.Clear N) (below : w.Below σ v) :
    d.Narrows N σ (d.set key w required) := by
  refine ⟨h.set key clear required, id, fun _ name => ?_⟩
  rw [get?_set h]
  split_ifs with same
  · rw [same, found]
    exact .some below required
  · exact .refl _

theorem refute (h : d.Kept N) {reason : Disjoint} (some_reason : reason.isEmpty = false) :
    d.Narrows N σ (d.refute reason) := by
  have none : (d.refute reason).reasons.isEmpty = false := by
    rw [isEmpty_refute, some_reason, Bool.and_false]
  exact ⟨⟨h.sorted, h.values⟩, fun h => absurd (none.symm.trans h) Bool.false_ne_true,
    fun h => absurd (none.symm.trans h) Bool.false_ne_true⟩

theorem heeds (h : d.Narrows N σ e) {s : Signature Node} {key : String}
    (heeds : d.Heeds σ s key) : e.Heeds σ s key := by
  intro none matched v required found
  obtain ⟨w, before, below⟩ := (h.named none key).exists_old found
  exact below.trans (heeds (h.reasons none) matched w required before)

end Draft.Narrows

theorem Draft.Heeds.of_refuted {s : Signature Node} {key : String} (h : d.reasons.isEmpty = false) :
    d.Heeds σ s key :=
  fun none => absurd (h.symm.trans none) Bool.false_ne_true

theorem foldl_presence_narrows (hd : d.Kept N) (never : Node) (es : List (String × Node)) :
    d.Narrows N σ (es.foldl (fun d e => d.presence [e.1] e.2 never) d) := by
  induction es generalizing d with
  | nil => exact .refl hd
  | cons e es ih =>
    have first : d.Narrows N σ (d.presence [e.1] e.2 never) :=
      .refute hd (Disjoint.isEmpty_single _ _ _ _)
    exact first.trans (ih first.kept)

theorem refuteRequired_narrows (hd : d.Kept N) :
    (refuteRequired d).Ensures .lasting (d.Narrows N σ) := by
  refine .ite (fun _ => .pure (.refl hd)) fun _ => ?_
  refine (Traced.never_lasting (Q := fun _ => True) trivial).bind fun never _ => .pure ?_
  exact foldl_presence_narrows hd never d.props.required

section

variable {meet : Meet} (narrows : meet.Narrows N σ)
include narrows

theorem narrowKey_narrows {s : Signature Node} (hs : s.value.Clear N) (hd : d.Kept N)
    (key : String) :
    (narrowKey meet s d key).Ensures .lasting fun e => d.Narrows N σ e ∧ e.Heeds σ s key := by
  have asked : (Traced.emit (.consulted s.key)).Ensures .lasting fun _ => True :=
    .emit (by exact trivial) fun _ => trivial
  have refuted {reason : Disjoint} (some_reason : reason.isEmpty = false) :
      d.Narrows N σ (d.refute reason) ∧ (d.refute reason).Heeds σ s key := by
    refine ⟨.refute hd some_reason, .of_refuted ?_⟩
    rw [Draft.isEmpty_refute, some_reason, Bool.and_false]
  refine asked.bind fun _ _ => .ite (fun unmatched => .pure ⟨.refl hd, fun _ matched => ?_⟩)
    fun _ => ?_
  · rw [matched] at unmatched
    cases unmatched
  cases found : d.props.get? key with
  | none =>
    refine .pure ⟨.refl hd, fun _ _ v required some_value => ?_⟩
    rw [found] at some_value
    cases some_value
  | some entry =>
    obtain ⟨v, required⟩ := entry
    have clear : v.Clear N := hd.values v (Props.mem_values_of_get? found)
    have narrowed {w : Node} (hw : w.Clear N) (old : w.Below σ v) (new : w.Below σ s.value) :
        d.Narrows N σ (d.set key w required) ∧ (d.set key w required).Heeds σ s key := by
      refine ⟨.set hd found hw old, fun _ _ x r placed => ?_⟩
      rw [Draft.get?_set hd, if_pos rfl] at placed
      cases placed
      exact new
    refine (narrows v s.value clear hs).run_bind (fun w hw => .pure ?_) fun inner some_reason => ?_
    · split_ifs
      · exact refuted (Disjoint.isEmpty_single _ _ _ _)
      · exact narrowed hw.clear hw.left hw.right
    · refine .ite (fun _ => .pure
        (refuted ((Disjoint.isEmpty_inside key inner).trans some_reason))) fun optional => ?_
      obtain rfl : required = false := by simpa using optional
      refine (Traced.never_lasting (Q := fun n => n = .never) rfl).bind fun n hn => .pure ?_
      subst hn
      exact narrowed Node.never_clear (Node.never_below v) (Node.never_below s.value)

theorem narrowKeys_narrows {s : Signature Node} (hs : s.value.Clear N) (hd : d.Kept N)
    (keys : List String) :
    (narrowKeys meet s d keys).Ensures .lasting fun e => d.Narrows N σ e ∧
      ∀ key ∈ keys, e.Heeds σ s key := by
  induction keys generalizing d with
  | nil => exact .pure ⟨.refl hd, List.forall_mem_nil _⟩
  | cons key r ih =>
    refine (narrowKey_narrows narrows hs hd key).bind fun e first =>
      (ih first.1.kept).mono fun f rest => ?_
    exact ⟨first.1.trans rest.1, List.forall_mem_cons.mpr ⟨rest.1.heeds first.2, rest.2⟩⟩

theorem narrowAll_narrows {index : List (Signature Node)} (hi : ∀ s ∈ index, s.value.Clear N)
    (hd : d.Kept N) : (narrowAll meet d index).Ensures .lasting fun e => d.Narrows N σ e ∧
      ∀ s ∈ index, s.key.hasAlias = false → ∀ key, e.Heeds σ s key := by
  induction index generalizing d with
  | nil => exact .pure ⟨.refl hd, List.forall_mem_nil _⟩
  | cons s r ih =>
    obtain ⟨first, rest⟩ := List.forall_mem_cons.mp hi
    rw [narrowAll]
    refine .ite (fun hasAlias => Traced.Ensures.bind (.pure (Q := (· = d)) rfl) fun e same => ?_)
      fun _ => ?_
    · subst same
      refine (ih rest hd).mono fun f narrowed =>
        ⟨narrowed.1, List.forall_mem_cons.mpr ⟨fun none => ?_, narrowed.2⟩⟩
      rw [hasAlias] at none
      cases none
    · refine (narrowKeys_narrows narrows first hd _).bind fun e here => (ih rest here.1.kept).mono
        fun f behind => ?_
      refine ⟨here.1.trans behind.1,
        List.forall_mem_cons.mpr ⟨fun _ key => behind.1.heeds ?_, behind.2⟩⟩
      intro none matched v required found
      obtain ⟨w, before, -⟩ := (here.1.named none key).exists_old found
      have named : key ∈ d.props.namedKeys := Props.mem_namedKeys.mpr (before ▸ rfl)
      exact here.2 key named none matched v required found

end

/-- Properties in normal form, with narrower values under the same keys. -/
structure Normalizes (N : Nat) (σ : String → Json → Bool) (p q : Props Node) : Prop where
  keeps : Keeps { p with index := sortedIndex p.index } q
  values : ∀ m ∈ q.values, m.Clear N
  named : ∀ name, Slims σ (p.get? name) (q.get? name)
  narrowed : q.Narrowed σ

theorem Normalizes.mem_index {p q : Props Node} (h : Normalizes N σ p q) {s : Signature Node} :
    s ∈ q.index ↔ s ∈ p.index := by
  rw [h.keeps.index]
  exact Sorting.mem_sort

theorem normalize_normalizes {meet : Meet} (narrows : meet.Narrows N σ) {p : Props Node}
    (sorted : p.Sorted) (values : ∀ m ∈ p.values, m.Clear N) :
    Attempt.Ensures .lasting (normalize meet p) (Normalizes N σ p) fun d => d.isEmpty = false := by
  have start : Draft.Kept N ⟨{ p with index := sortedIndex p.index }, .none⟩ := by
    refine ⟨⟨sorted.required, sorted.optional⟩, fun m hm => values m ?_⟩
    rw [Props.mem_values] at hm ⊢
    simpa only [sortedIndex, Sorting.mem_sort] using hm
  have clear : ∀ s ∈ sortedIndex p.index, s.value.Clear N :=
    fun s hs => values _ (Props.mem_values_of_index (Sorting.mem_sort.mp hs)).2
  have narrowed : Attempt.Ensures .lasting (normalize meet p)
      (fun q => (∀ m ∈ q.values, m.Clear N) ∧
      (∀ name, Slims σ (p.get? name) (q.get? name)) ∧
        ∀ s ∈ sortedIndex p.index, s.key.hasAlias = false →
        ∀ key v required, q.get? key = some (v, required) →
          s.key.admits (.string key) = true → v.Below σ s.value)
      fun d => d.isEmpty = false := by
    refine Attempt.Ensures.bind (.lift (narrowAll_narrows narrows clear start)) fun d narrowed => ?_
    refine Attempt.Ensures.bind (.lift (refuteRequired_narrows (σ := σ) narrowed.1.kept))
      fun e refuted => ?_
    have all : Draft.Narrows N σ _ e := narrowed.1.trans refuted
    refine .ite (fun silent => .pure ⟨all.kept.values, all.named silent, ?_⟩) fun some_reason =>
      .throw (by simpa using some_reason)
    intro s hs noAlias key v required found matched
    exact refuted.heeds (narrowed.2 s hs noAlias key) silent matched v required found
  refine narrowed.and_outcome (fun q normal => normalize_keeps meet id sorted normal)
    fun q ⟨values, named, matched⟩ keeps => ⟨keeps, values, named, fun s hs => matched s ?_⟩
  rwa [keeps.index] at hs

omit [Library] in
theorem mem_allKeys {p q : Props Node} {key : String} :
    key ∈ allKeys p q ↔ key ∈ p.namedKeys ∨ key ∈ q.namedKeys := by
  rw [allKeys, Entries.mem_keys, Entries.get?_ofList_units, ← List.mem_append]
  split_ifs with named
  · simpa using named
  · simpa using named

omit [Library] in
theorem signatures_of_clear {p : Props Node} (hp : Node.Clear N (.of (.props p))) :
    Signatures N p.index := by
  intro s hs
  obtain ⟨key, value⟩ := Props.mem_values_of_index hs
  exact ⟨hp.children _ key, hp.children _ value, hp.isClear.2 s hs⟩

theorem within_of_normalizes {p both r : Props Node}
    (named : ∀ key, Narrower σ (p.get? key) (both.get? key))
    (index : Carries σ both.index p.index) (sequence : CoversSequence σ p.sequence both.sequence)
    (normal : Normalizes N σ both r) : r.Within σ p := by
  refine ⟨fun key => (named key).trans (normal.named key).narrower, fun s hs => ?_,
    fun s hs => ?_⟩
  · obtain ⟨t, ht, found⟩ := index s hs
    exact ⟨t, normal.mem_index.mpr ht, found⟩
  · obtain ⟨t, ht, below⟩ := sequence s hs
    exact ⟨t, normal.keeps.sequence.trans ht, below⟩

theorem meetProps_meets {meet : Meet} (narrows : meet.Narrows N σ) :
    Meets N σ (meetProps meet) := by
  intro p q hp hq
  have empty : Draft.Kept N ⟨.empty, .none⟩ :=
    ⟨Props.tidy_empty.toSorted, fun _ hm => absurd hm List.not_mem_nil⟩
  refine Attempt.Ensures.bind
    (.lift (meetKeys_covers narrows hp.children hq.children empty (allKeys p q)))
    fun named hn => ?_
  have covers (key : String) : Covers σ p q named key := by
    by_cases known : p.get? key ≠ none ∨ q.get? key ≠ none
    · refine hn.2 key (mem_allKeys.mpr (known.imp ?_ ?_)) known <;>
        exact fun some_value => Props.mem_namedKeys.mpr (Option.isSome_iff_ne_none.mpr some_value)
    · rw [not_or, not_not, not_not] at known
      intro _
      rw [known.1, known.2]
      exact ⟨.of_none _, .of_none _⟩
  refine Attempt.Ensures.bind
    (.lift (meetIndex_carries narrows (signatures_of_clear hp) (signatures_of_clear hq)))
    fun index hi => ?_
  have indexed : Draft.Kept N { named with props := { named.props with index := index } } := by
    refine ⟨⟨hn.1.kept.sorted.required, hn.1.kept.sorted.optional⟩, fun m hm => ?_⟩
    have before (h : m ∈ named.props.values) := hn.1.kept.values m h
    rw [Props.mem_values] at hm before
    rcases hm with hm | hm | ⟨s, hs, rfl | rfl⟩ | hm
    · exact before (.inl hm)
    · exact before (.inr (.inl hm))
    · exact (hi.1 s hs).1
    · exact (hi.1 s hs).2.1
    · exact before (.inr (.inr (.inr hm)))
  have tidy := hn.1.tidy Props.tidy_empty
  refine Attempt.Ensures.bind (.lift (meetSequence_covers narrows hp.children hq.children indexed))
    fun d ⟨kept, still, sameIndex, sameKeys, sequences⟩ => ?_
  have finished : Attempt.Ensures .lasting d.finish
      (fun both => both = d.props ∧ d.reasons.isEmpty = true)
      fun d => d.isEmpty = false :=
    .ite (fun silent => .pure ⟨rfl, silent⟩) fun some_reason =>
      .throw (by simpa using some_reason)
  refine finished.bind fun both ⟨same, silent⟩ => ?_
  subst same
  obtain ⟨silent', left, right⟩ := sequences silent
  refine (normalize_normalizes narrows kept.sorted kept.values).mono (fun r normal => ?_)
    fun _ => id
  have both : d.props.Tidy := still ⟨⟨tidy.required, tidy.optional⟩, tidy.apart⟩
  have clear : Node.Clear N (.of (.props r)) := by
    have tidy := normal.keeps.tidy ⟨⟨both.required, both.optional⟩, both.apart⟩
    refine .of _ trivial ⟨tidy.nodup, fun s hs => ?_⟩ normal.values
    have member := normal.mem_index.mp hs
    rw [sameIndex] at member
    exact (hi.1 s member).2.2
  have named (key : String) : d.props.get? key = named.props.get? key := sameKeys key
  have free (s : Props Node) : (Node.of (.props s)).marks = [] := Node.marks_of (.props s)
  refine .of_single clear ?_ ?_ rfl (by simp only [free, List.nil_subset, and_self])
  · refine (within_of_normalizes (fun key => ?_) (sameIndex ▸ hi.2.1) left normal).below
      normal.narrowed hp.isClear.1 hp.isClear.2
    exact named key ▸ (covers key silent').1
  · refine (within_of_normalizes (fun key => ?_) (sameIndex ▸ hi.2.2) right normal).below
      normal.narrowed hq.isClear.1 hq.isClear.2
    exact named key ▸ (covers key silent').2

end Properties

end SchemaAlgebra
