/-!
# Splitting at a separator

`splitChars` cuts at every occurrence of one character and keeps empty pieces, so there is always one piece more than
there are separators.  Main statement: `splitText_append` (where two texts meet at a separator, so do their pieces).
-/
namespace ListQuery

def splitChars (sep : Char) : List Char → List (List Char)
  | [] => [[]]
  | c :: cs =>
    if c = sep then [] :: splitChars sep cs
    else
      match splitChars sep cs with
      | [] => [[c]]
      | piece :: pieces => (c :: piece) :: pieces

theorem splitChars_ne_nil (sep : Char) : ∀ cs, splitChars sep cs ≠ []
  | [] => by simp [splitChars]
  | c :: cs => by
    unfold splitChars
    split
    · simp
    · split <;> simp

theorem splitChars_of_notMem {sep : Char} : ∀ {cs : List Char}, sep ∉ cs → splitChars sep cs = [cs]
  | [], _ => rfl
  | c :: cs, h => by
    rw [List.mem_cons, not_or] at h
    rw [splitChars, if_neg (Ne.symm h.1), splitChars_of_notMem h.2]

theorem splitChars_append (sep : Char) (ds : List Char) : ∀ cs : List Char,
    splitChars sep (cs ++ sep :: ds) = splitChars sep cs ++ splitChars sep ds
  | [] => by simp [splitChars]
  | c :: cs => by
    have ih := splitChars_append sep ds cs
    by_cases h : c = sep
    · simp [splitChars, h, ih]
    · rcases hs : splitChars sep cs with _ | ⟨piece, pieces⟩
      · exact absurd hs (splitChars_ne_nil sep cs)
      · simp [splitChars, h, ih, hs]

def splitText (sep : Char) (s : String) : List String := (splitChars sep s.toList).map String.ofList

theorem splitText_of_notMem {sep : Char} {text : String} (h : sep ∉ text.toList) : splitText sep text = [text] := by
  rw [splitText, splitChars_of_notMem h, List.map_singleton, String.ofList_toList]

theorem splitText_append (sep : Char) (s t : String) :
    splitText sep (s ++ String.singleton sep ++ t) = splitText sep s ++ splitText sep t := by
  simp only [splitText, String.toList_append, String.toList_singleton, List.append_assoc, List.singleton_append,
    splitChars_append, List.map_append]

end ListQuery
