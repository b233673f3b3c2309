import DocumentStore.Proofs.CalendarEnd
import Mathlib.Data.String.Basic

/-!
# The order of numbers with leading zeros

Of two texts of digits that have the same length, the one that comes first is the smaller number. So
numbers with leading zeros up to one width are ordered as texts in the way they are ordered as
numbers, whatever follows them, and a text of digits is the only one of its length for its number.
-/

set_option autoImplicit false

namespace DocumentStore.Time

variable {s t : List Char} {m n : Nat}

/-- Digits put after a number shift it by their places. -/
theorem mul_pow_le_foldl_digits (s : List Char) (n : Nat) :
    n * 10 ^ s.length ≤ s.foldl (fun n c => 10 * n + (c.toNat - '0'.toNat)) n := by
  induction s generalizing n with
  | nil => simp
  | cons c rest ih =>
    rw [List.foldl_cons, List.length_cons, Nat.pow_succ', ← Nat.mul_assoc]
    refine Nat.le_trans (Nat.mul_le_mul_right _ ?_) (ih _)
    omega

/-- Of two texts with as many digits, the one that comes first is the smaller number. -/
theorem foldl_digits_lt_foldl_digits (hs : ∀ c ∈ s, ('0' ≤ c && c ≤ '9') = true)
    (ht : ∀ c ∈ t, ('0' ≤ c && c ≤ '9') = true) (hlength : s.length = t.length) (h : s < t)
    (n : Nat) :
    s.foldl (fun n c => 10 * n + (c.toNat - '0'.toNat)) n <
      t.foldl (fun n c => 10 * n + (c.toNat - '0'.toNat)) n := by
  induction s generalizing t n with
  | nil =>
    rw [List.length_nil, eq_comm, List.length_eq_zero_iff] at hlength
    rw [hlength] at h
    exact absurd h (List.not_lt_nil _)
  | cons c rest ih =>
    cases t with
    | nil => exact absurd h (List.not_lt_nil _)
    | cons d others =>
      have hrest : ∀ x ∈ rest, ('0' ≤ x && x ≤ '9') = true :=
        fun x hx => hs x (List.mem_cons_of_mem _ hx)
      have hothers : ∀ x ∈ others, ('0' ≤ x && x ≤ '9') = true :=
        fun x hx => ht x (List.mem_cons_of_mem _ hx)
      have hlength' : rest.length = others.length := by simpa using hlength
      rw [List.foldl_cons, List.foldl_cons]
      rcases List.cons_lt_cons_iff.mp h with hfirst | ⟨rfl, hlater⟩
      · -- the first digit decides: what follows adds less than one step of it
        have hzero : '0'.toNat = 48 := rfl
        have hdigit := hs c (List.mem_cons_self ..)
        rw [Bool.and_eq_true, decide_eq_true_eq] at hdigit
        have hlow : 48 ≤ c.toNat := hdigit.1
        have hless : c.toNat < d.toNat := hfirst
        calc rest.foldl (fun n c => 10 * n + (c.toNat - '0'.toNat))
              (10 * n + (c.toNat - '0'.toNat))
            < (10 * n + (c.toNat - '0'.toNat) + 1) * 10 ^ rest.length := foldl_digits_lt hrest _
          _ ≤ (10 * n + (d.toNat - '0'.toNat)) * 10 ^ others.length := by
              rw [hlength']
              exact Nat.mul_le_mul_right _ (by omega)
          _ ≤ others.foldl (fun n c => 10 * n + (c.toNat - '0'.toNat))
                (10 * n + (d.toNat - '0'.toNat)) := mul_pow_le_foldl_digits others _
      · exact ih hrest hothers hlength' hlater _

/-- Of two numbers with equally many digits the one whose text comes first is smaller. -/
theorem digits?_lt_digits? (hs : digits? s = some m) (ht : digits? t = some n)
    (hlength : s.length = t.length) (h : s < t) : m < n := by
  obtain ⟨hdigits, -, rfl⟩ := digits?_eq_some hs
  obtain ⟨hdigits', -, rfl⟩ := digits?_eq_some ht
  exact foldl_digits_lt_foldl_digits hdigits hdigits' hlength h 0

/-- Texts of one length with the same number are the same. -/
theorem eq_of_digits?_eq (hs : digits? s = some n) (ht : digits? t = some n)
    (hlength : s.length = t.length) : s = t := by
  rcases lt_trichotomy s t with hlt | heq | hgt
  · exact absurd (digits?_lt_digits? hs ht hlength hlt) (Nat.lt_irrefl n)
  · exact heq
  · exact absurd (digits?_lt_digits? ht hs hlength.symm hgt) (Nat.lt_irrefl n)

/-- A text that is read as a number is that number, with leading zeros up to the length of the text. -/
theorem eq_padded_of_digits? (h : digits? s = some n) : s = padded s.length n := by
  have hpos : 0 < s.length := List.length_pos_iff.mpr (digits?_eq_some h).2.1
  exact eq_of_digits?_eq h (digits?_padded _ _) (length_padded hpos (digits?_lt h)).symm

/-- Texts of one length that differ decide the order of whatever they begin. -/
theorem append_lt_append (hlength : s.length = t.length) (h : s < t) (u v : List Char) :
    s ++ u < t ++ v := by
  induction s generalizing t with
  | nil =>
    rw [List.length_nil, eq_comm, List.length_eq_zero_iff] at hlength
    rw [hlength] at h
    exact absurd h (List.not_lt_nil _)
  | cons c rest ih =>
    cases t with
    | nil => exact absurd h (List.not_lt_nil _)
    | cons d others =>
      rw [List.cons_append, List.cons_append, List.cons_lt_cons_iff]
      refine (List.cons_lt_cons_iff.mp h).imp_right fun ⟨heq, hlater⟩ => ⟨heq, ?_⟩
      exact ih (by simpa using hlength) hlater

/-- After a common beginning and a common character, the rest decides. -/
theorem append_cons_lt {u v : List Char} {c : Char} (h : u < v) : s ++ c :: u < s ++ c :: v :=
  List.append_left_lt (List.cons_lt_cons_self.mpr h)

/-- Numbers with leading zeros up to one width are ordered as texts, whatever follows them. -/
theorem padded_append_lt {width : Nat} (h : m < n) (hn : n < 10 ^ width) (u v : List Char) :
    padded width m ++ u < padded width n ++ v := by
  have hwidth : 0 < width := by
    rcases Nat.eq_zero_or_pos width with rfl | hpos
    · rw [Nat.pow_zero] at hn
      omega
    · exact hpos
  have hlength : (padded width m).length = (padded width n).length := by
    rw [length_padded hwidth (h.trans hn), length_padded hwidth hn]
  refine append_lt_append hlength ?_ u v
  rcases lt_trichotomy (padded width m) (padded width n) with hlt | heq | hgt
  · exact hlt
  · have hsame := digits?_padded width m
    rw [heq, digits?_padded, Option.some.injEq] at hsame
    omega
  · have hless := digits?_lt_digits? (digits?_padded width n) (digits?_padded width m)
      hlength.symm hgt
    omega

end DocumentStore.Time
