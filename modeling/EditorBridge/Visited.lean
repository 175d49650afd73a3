/-
What is left to visit.  A search that notes where it has been ends, because each
new note leaves fewer places unvisited.
-/

namespace EditorBridge

variable {α : Type} [DecidableEq α]

/-- How many members of `all` are not in `seen`. -/
def remaining (all seen : List α) : Nat := all.countP fun a => !seen.contains a

theorem remaining_cons_le (all seen : List α) (a : α) :
    remaining all (a :: seen) ≤ remaining all seen := by
  apply List.countP_mono_left
  intro b _ h
  simp only [List.contains_cons, Bool.not_or, Bool.and_eq_true] at h
  exact h.2

theorem remaining_cons_lt {all seen : List α} {a : α} (hall : a ∈ all)
    (hseen : seen.contains a = false) : remaining all (a :: seen) < remaining all seen := by
  obtain ⟨front, back, rfl⟩ := List.append_of_mem hall
  have hfront := remaining_cons_le front seen a
  have hback := remaining_cons_le back seen a
  simp only [remaining, List.countP_append, List.countP_cons, List.contains_cons,
    beq_self_eq_true, Bool.true_or, Bool.not_true, hseen, Bool.not_false, if_true,
    Bool.false_eq_true, if_false] at hfront hback ⊢
  omega

end EditorBridge
