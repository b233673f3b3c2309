/-!
# Separated text

Cutting a text at every occurrence of a separator, and joining pieces with a separator between
neighbours.
-/

set_option autoImplicit false

namespace DocumentStore.Text

/-- The pieces between the occurrences of `separator`; a text without it is one piece, and there
is always at least one piece. -/
def pieces (separator : Char) : List Char → List (List Char)
  | [] => [[]]
  | c :: rest =>
    if c = separator then [] :: pieces separator rest
    else
      match pieces separator rest with
      | [] => [[c]]
      | first :: others => (c :: first) :: others

/-- The pieces one after the other, with `separator` between neighbours. -/
def joined (separator : List Char) : List (List Char) → List Char
  | [] => []
  | [piece] => piece
  | piece :: next :: others => piece ++ separator ++ joined separator (next :: others)

/-- There is at least one piece. -/
theorem pieces_ne_nil (separator : Char) (s : List Char) : pieces separator s ≠ [] := by
  induction s with
  | nil => simp [pieces]
  | cons c rest ih =>
    rw [pieces]
    split
    · simp
    · split <;> simp

/-- Joining the pieces of a text gives the text back. -/
theorem joined_pieces (separator : Char) (s : List Char) :
    joined [separator] (pieces separator s) = s := by
  induction s with
  | nil => rfl
  | cons c rest ih =>
    rw [pieces]
    cases hp : pieces separator rest with
    | nil => exact absurd hp (pieces_ne_nil separator rest)
    | cons first others =>
      rw [hp] at ih
      split
      · next h => subst h; simp [joined, ih]
      · cases others <;> simp_all [joined]

/-- A text without separators is one piece. -/
theorem pieces_of_not_mem {separator : Char} {part : List Char} (h : separator ∉ part) :
    pieces separator part = [part] := by
  induction part with
  | nil => rfl
  | cons c rest ih =>
    rw [List.mem_cons, not_or] at h
    rw [pieces, if_neg (Ne.symm h.1), ih h.2]

/-- The first separator ends the first piece. -/
theorem pieces_append {separator : Char} {part : List Char} (h : separator ∉ part)
    (rest : List Char) : pieces separator (part ++ separator :: rest) =
      part :: pieces separator rest := by
  induction part with
  | nil => rw [List.nil_append, pieces, if_pos rfl]
  | cons c tail ih =>
    rw [List.mem_cons, not_or] at h
    rw [List.cons_append, pieces, if_neg (Ne.symm h.1), ih h.2]

/-- Cutting a joined text gives the pieces back, provided that none of them has the separator. -/
theorem pieces_joined (separator : Char) {parts : List (List Char)} (hne : parts ≠ [])
    (h : ∀ part ∈ parts, separator ∉ part) :
    pieces separator (joined [separator] parts) = parts := by
  induction parts with
  | nil => exact absurd rfl hne
  | cons part rest ih =>
    have hpart := h part (List.mem_cons_self ..)
    cases rest with
    | nil => exact pieces_of_not_mem hpart
    | cons next others =>
      rw [joined, List.append_assoc, List.singleton_append, pieces_append hpart,
        ih (List.cons_ne_nil _ _) fun other hother => h other (List.mem_cons_of_mem _ hother)]

/-- No piece of a text has the separator. -/
theorem separator_not_mem_pieces {separator : Char} (s : List Char) :
    ∀ piece ∈ pieces separator s, separator ∉ piece := by
  induction s with
  | nil => simp [pieces]
  | cons c rest ih =>
    rw [pieces]
    split
    · simpa using ih
    · next hc =>
      split
      · next hp => exact absurd hp (pieces_ne_nil separator rest)
      · next first others hp =>
        rw [hp, List.forall_mem_cons] at ih
        rw [List.forall_mem_cons, List.mem_cons, not_or]
        exact ⟨⟨Ne.symm hc, ih.1⟩, ih.2⟩

end DocumentStore.Text
