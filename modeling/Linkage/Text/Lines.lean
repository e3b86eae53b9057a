/-!
# Lines

A text is broken into lines after each line feed. The line feed does not belong to the line, nor
does a carriage return right before it. What follows the last line feed is a line if there is
anything.
-/

namespace Linkage.Text

def breakLines : List Char → List (List Char)
  | [] => []
  | '\r' :: '\n' :: rest => [] :: breakLines rest
  | '\n' :: rest => [] :: breakLines rest
  | c :: rest =>
    match breakLines rest with
    | [] => [[c]]
    | line :: lines => (c :: line) :: lines

def lines (s : String) : List String := (breakLines s.toList).map String.ofList

/-- A text without breaks is one line. -/
theorem breakLines_of_unbroken {cs : List Char} (hbreak : '\n' ∉ cs) (hne : cs ≠ []) :
    breakLines cs = [cs] := by
  induction cs with
  | nil => exact absurd rfl hne
  | cons c rest ih =>
    have hrest : '\n' ∉ rest := fun h => hbreak (List.mem_cons_of_mem _ h)
    have hc : c ≠ '\n' := fun h => hbreak (h ▸ List.mem_cons_self)
    have hstep : breakLines (c :: rest) =
        match breakLines rest with
        | [] => [[c]]
        | line :: lines => (c :: line) :: lines := by
      rw [breakLines]
      · intro more _ hmore
        exact hrest (hmore ▸ List.mem_cons_self)
      · exact hc
    rw [hstep]
    by_cases h : rest = []
    · simp [h, breakLines]
    · simp [ih hrest h]

end Linkage.Text
