/-!
Text in pieces between separators. Main statement: `intercalate_split`.
-/

namespace SortedBlob.Text

/-- One piece more than there are separators; pieces may be empty. -/
def split (separator : Char) : List Char → List (List Char)
  | [] => [[]]
  | c :: rest =>
      if c = separator then [] :: split separator rest
      else
        match split separator rest with
        | [] => [[c]]
        | piece :: more => (c :: piece) :: more

theorem split_ne_nil (separator : Char) (text : List Char) : split separator text ≠ [] := by
  cases text with
  | nil => simp [split]
  | cons c rest =>
      unfold split
      split
      · simp
      · split <;> simp

theorem intercalate_split (separator : Char) (text : List Char) :
    [separator].intercalate (split separator text) = text := by
  induction text with
  | nil => rfl
  | cons c rest ih =>
      unfold split
      split
      · rename_i same
        rw [List.intercalate_cons_of_ne_nil (split_ne_nil separator rest), ih, same]
        rfl
      · split
        · rename_i empty
          exact absurd empty (split_ne_nil separator rest)
        · rename_i piece more found
          rw [found] at ih
          cases more with
          | nil => simpa using ih
          | cons next more =>
              rw [List.intercalate_cons_cons] at ih ⊢
              rw [List.cons_append, List.cons_append, ih]

end SortedBlob.Text
