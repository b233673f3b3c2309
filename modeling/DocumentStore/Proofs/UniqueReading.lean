import DocumentStore.Text.Doubled
import DocumentStore.Text.Pieces
import Mathlib.Data.List.Forall2

/-!
# Texts that can be read in one way only

A text stands in front of something else, of which only the beginning is known: it begins with one
of a few characters, or there is nothing more. A text of a thing is read in one way only if, with
anything of that kind behind it, it is not also the text of another thing with something behind it.
Runs of characters, enclosed texts and joined sequences are such texts; for a sequence it is enough
that its members are.
-/

set_option autoImplicit false

namespace DocumentStore.Text

variable {s t u v : List Char}

/-! ## Runs of characters -/

/-- A text does not begin with a character of the given kind. -/
def StopsAt (inside : Char → Bool) (tail : List Char) : Prop :=
  ∀ c rest, tail = c :: rest → inside c = false

/-- A character of another kind ends a run. -/
theorem stopsAt_cons {inside : Char → Bool} {c : Char} (h : inside c = false)
    (rest : List Char) : StopsAt inside (c :: rest) := by
  rintro d others ⟨⟩
  exact h

/-- A run of characters ends at the first one of another kind. -/
theorem run_unique {inside : Char → Bool} (hs : ∀ c ∈ s, inside c = true)
    (ht : ∀ c ∈ t, inside c = true) (hu : StopsAt inside u) (hv : StopsAt inside v)
    (h : s ++ u = t ++ v) : s = t ∧ u = v := by
  induction s generalizing t with
  | nil =>
    cases t with
    | nil => exact ⟨rfl, h⟩
    | cons d rest =>
      have houtside := hu d (rest ++ v) h
      rw [ht d (List.mem_cons_self ..)] at houtside
      cases houtside
  | cons c rest ih =>
    cases t with
    | nil =>
      have houtside := hv c (rest ++ u) h.symm
      rw [hs c (List.mem_cons_self ..)] at houtside
      cases houtside
    | cons d others =>
      obtain ⟨hhead, htail⟩ := List.cons.inj h
      obtain ⟨hrest, htail⟩ := ih (fun e he => hs e (List.mem_cons_of_mem _ he))
        (fun e he => ht e (List.mem_cons_of_mem _ he)) htail
      exact ⟨by rw [hhead, hrest], htail⟩

/-! ## Enclosed texts -/

/-- The mark that ends an enclosed text is not a character of a longer one. -/
theorem mark_ne_doubled_cons {mark c : Char} {rest tail : List Char}
    (htail : ∀ others, tail ≠ mark :: others) (after : List Char) :
    mark :: tail ≠ doubled mark (c :: rest) ++ after := by
  rw [doubled]
  intro h
  by_cases hc : c = mark
  · rw [if_pos hc] at h
    exact htail _ (List.cons.inj h).2
  · rw [if_neg hc] at h
    exact hc (List.cons.inj h).1.symm

/-- A text with its marks doubled is told from what follows the mark that ends it. -/
theorem doubled_unique {mark : Char} (hu : ∀ rest, u ≠ mark :: rest)
    (hv : ∀ rest, v ≠ mark :: rest)
    (h : doubled mark s ++ mark :: u = doubled mark t ++ mark :: v) : s = t ∧ u = v := by
  induction s generalizing t with
  | nil =>
    cases t with
    | nil => exact ⟨rfl, (List.cons.inj h).2⟩
    | cons d others => exact absurd h (mark_ne_doubled_cons hu _)
  | cons c rest ih =>
    cases t with
    | nil => exact absurd h.symm (mark_ne_doubled_cons hv _)
    | cons d others =>
      rw [doubled, doubled] at h
      by_cases hc : c = mark
      · by_cases hd : d = mark
        · rw [if_pos hc, if_pos hd] at h
          obtain ⟨hrest, htail⟩ := ih (List.cons.inj (List.cons.inj h).2).2
          exact ⟨by rw [hc, hd, hrest], htail⟩
        · rw [if_pos hc, if_neg hd] at h
          exact absurd (List.cons.inj h).1.symm hd
      · by_cases hd : d = mark
        · rw [if_neg hc, if_pos hd] at h
          exact absurd (List.cons.inj h).1 hc
        · rw [if_neg hc, if_neg hd] at h
          obtain ⟨hhead, htail⟩ := List.cons.inj h
          obtain ⟨hrest, htail⟩ := ih htail
          exact ⟨by rw [hhead, hrest], htail⟩

/-- An enclosed text ends at the first mark that is not followed by another one. -/
theorem enclosed_unique {mark : Char} (hu : ∀ rest, u ≠ mark :: rest)
    (hv : ∀ rest, v ≠ mark :: rest) (h : enclosed mark s ++ u = enclosed mark t ++ v) :
    s = t ∧ u = v := by
  unfold enclosed at h
  rw [List.cons_append, List.cons_append, List.append_assoc, List.append_assoc] at h
  exact doubled_unique hu hv (List.cons.inj h).2

/-! ## Texts of things -/

section Things

variable {α : Type} {tells : List Char → α → Prop} {ends : List Char → Prop}

/-- With nothing behind it but what may end a text, a text is that of one thing only. -/
def ReadsOnly (tells : List Char → α → Prop) (ends : List Char → Prop) (text : List Char)
    (thing : α) : Prop :=
  ∀ ⦃other : List Char⦄ ⦃thing' : α⦄ ⦃u v : List Char⦄, tells other thing' → ends u → ends v →
    text ++ u = other ++ v → thing = thing' ∧ u = v

/-- A text and more than none after it are joined by the separator. -/
theorem joined_cons {separator first : List Char} {rest : List (List Char)} (hne : rest ≠ []) :
    joined separator (first :: rest) = first ++ separator ++ joined separator rest := by
  cases rest with
  | nil => exact absurd rfl hne
  | cons next others => rw [joined]

/-- What may stand between the members of a sequence: it ends a member, it is not taken for what
ends the sequence, and it is not taken for another separator. -/
structure Separators (separates ends endsAll : List Char → Prop) : Prop where
  ends_separator : ∀ {separator}, separates separator → ∀ rest, ends (separator ++ rest)
  ends_all : ∀ {tail}, endsAll tail → ends tail
  apart : ∀ {separator tail}, separates separator → endsAll tail → ∀ rest,
    tail ≠ separator ++ rest
  unique : ∀ {separator separator' rest rest'}, separates separator → separates separator' →
    separator ++ rest = separator' ++ rest' → separator = separator'

/-- A sequence is read member by member. Its separator is read as well, unless it has one member. -/
theorem joined_unique {separates endsAll : List Char → Prop}
    (separators : Separators separates ends endsAll) {separator separator' : List Char}
    (hseparator : separates separator) (hseparator' : separates separator')
    {texts others : List (List Char)} {things things' : List α}
    (htexts : List.Forall₂ (ReadsOnly tells ends) texts things)
    (hothers : List.Forall₂ tells others things') (hne : texts ≠ []) (hne' : others ≠ [])
    (hu : endsAll u) (hv : endsAll v)
    (h : joined separator texts ++ u = joined separator' others ++ v) :
    things = things' ∧ u = v ∧ (separator = separator' ∨ things.length = 1) := by
  induction htexts generalizing others things' with
  | nil => exact absurd rfl hne
  | @cons text thing texts things honly htexts ih =>
    cases hothers with
    | nil => exact absurd rfl hne'
    | @cons other thing' others things' htells hothers =>
      by_cases hrest : texts = []
      · by_cases hrest' : others = []
        · subst hrest hrest'
          cases htexts
          cases hothers
          obtain ⟨rfl, htail⟩ :=
            honly htells (separators.ends_all hu) (separators.ends_all hv) h
          exact ⟨rfl, htail, Or.inr rfl⟩
        · subst hrest
          rw [joined, joined_cons hrest', List.append_assoc, List.append_assoc] at h
          obtain ⟨-, htail⟩ :=
            honly htells (separators.ends_all hu) (separators.ends_separator hseparator' _) h
          exact absurd htail (separators.apart hseparator' hu _)
      · by_cases hrest' : others = []
        · subst hrest'
          rw [joined, joined_cons hrest, List.append_assoc, List.append_assoc] at h
          obtain ⟨-, htail⟩ :=
            honly htells (separators.ends_separator hseparator _) (separators.ends_all hv) h
          exact absurd htail.symm (separators.apart hseparator hv _)
        · rw [joined_cons hrest, joined_cons hrest', List.append_assoc, List.append_assoc,
            List.append_assoc, List.append_assoc] at h
          obtain ⟨rfl, htail⟩ := honly htells (separators.ends_separator hseparator _)
            (separators.ends_separator hseparator' _) h
          obtain rfl := separators.unique hseparator hseparator' htail
          obtain ⟨rfl, hend, -⟩ := ih hothers hrest hrest' (List.append_cancel_left htail)
          exact ⟨rfl, hend, Or.inl rfl⟩

end Things

end DocumentStore.Text
