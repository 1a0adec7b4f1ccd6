import SchemaAlgebra.Proofs.Continuation
import SchemaAlgebra.Proofs.Inheritance

/-!
# Budgets that do not run out

There is a way of intersecting that no budget limits, and for reduced nodes it is the one with a
budget.
-/
namespace SchemaAlgebra

variable [Library]

section

open Classical

/-- Intersects with a budget that does not run out, if there is one. -/
noncomputable def meetFreely : Meet := fun l r =>
  if h : ∃ depth, Event.exhausted ∉ (meetUpTo depth l r).run.trace id then meetUpTo h.choose l r
  else meetUpTo 0 l r

theorem meetUpTo_continues_freely (depth : Nat) :
    Meet.Continues (id · = ·) (meetUpTo depth) meetFreely := by
  intro l r
  by_cases enough : ∃ depth, Event.exhausted ∉ (meetUpTo depth l r).run.trace id
  · rw [meetFreely, dif_pos enough]
    rcases Nat.le_total depth enough.choose with more | more
    · exact meetUpTo_continues more l r
    · exact (meetUpTo_continues more l r).symm enough.choose_spec
  · rw [not_exists] at enough
    exact .exhausted (Traced.Exhausts.iff_mem.mpr (not_not.mp (enough depth))) _

end

def Judging.reduced : Judging :=
  ⟨id, fun _ => True, fun n => n.Reduced ∧ True, fun _ h => h, Node.same_refl⟩

theorem Judging.reduced_inherited : Inherited Judging.reduced.holds :=
  Hereditary.inherited ⟨fun _ _ _ _ => trivial, fun _ _ _ => trivial⟩

theorem meet_continues_freely : Meet.Continues (id · = ·) meet meetFreely :=
  fun l r => meetUpTo_continues_freely _ l r

section

variable {l r : Node} (hl : l.Reduced) (hr : r.Reduced)
include hl hr

theorem meet_lasts : Event.exhausted ∉ (meet l r).run.trace id :=
  (meet_inherits Judging.reduced_inherited ⟨hl, trivial⟩ ⟨hr, trivial⟩ fun _ _ => trivial).2
    .exhausted

theorem meetFreely_eq_meet : (meetFreely l r).outcome id = (meet l r).outcome id :=
  Traced.Continues.value_eq (meet_continues_freely l r) (meet_lasts hl hr)

/-- Without a budget, intersecting reduced nodes is one step in which smaller nodes are intersected
so. -/
theorem meetFreely_eq_step :
    (meetFreely l r).outcome id = (meetStep meetFreely l r).outcome id := by
  rw [meetFreely_eq_meet hl hr]
  exact (Traced.Continues.value_eq (meetStep_continues (meetUpTo_continues_freely _) l r)
    (meet_lasts hl hr)).symm

end

theorem union_eq_freely {nodes : List Node} (reduced : ∀ n ∈ nodes, n.Reduced) :
    (Union.of meet nodes).value id = (Union.of meetFreely nodes).value id := by
  have lasts : Event.exhausted ∉ (determinateUnion nodes).trace id :=
    (Union.determinate_inherits Judging.reduced_inherited (fun n hn => ⟨reduced n hn, trivial⟩)
      fun _ _ => trivial).2 .exhausted
  rw [determinateUnion, Union.determinate, Traced.trace_bind, List.mem_append, not_or] at lasts
  exact ((Union.of_continues meet_continues_freely nodes).value_eq lasts.1).symm

end SchemaAlgebra
