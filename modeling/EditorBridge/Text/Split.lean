/-
Cutting a text at every occurrence of a mark.  There is always at least one
part.
-/

namespace EditorBridge.Text

variable {α : Type} [DecidableEq α]

/-- Cut a text at every occurrence of a mark. -/
def splitAt (mark : α) : List α → List (List α)
  | [] => [[]]
  | c :: rest =>
      if c = mark then [] :: splitAt mark rest
      else match splitAt mark rest with
        | [] => [[c]]
        | part :: more => (c :: part) :: more

theorem splitAt_ne_nil (mark : α) (cs : List α) : splitAt mark cs ≠ [] := by
  cases cs with
  | nil => simp [splitAt]
  | cons c rest =>
      rw [splitAt]
      split
      · simp
      · split <;> simp

end EditorBridge.Text
