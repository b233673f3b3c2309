import DocumentStore.Json.Token
import DocumentStore.Proofs.ShortestDecimal
import Mathlib.Tactic.IntervalCases

/-!
# Number texts and their tokens

The pass over the characters of a JSON text finds in the text of a number the one token that is
meant, whatever follows, as long as it could not continue a number. SQL numbers are JSON numbers as
well, so the same pass tells what an SQL text says. A token of a floating-point number has a place
after the point or an exponent, and the number it was written for is the one nearest to its decimal.
-/

set_option autoImplicit false

namespace DocumentStore

open Decimal (naturalText integerText positionalText exponentText Scientific Layout shortest)
open Floating (Format)

/-! ## Digits of natural numbers -/

namespace Decimal

/-- A natural number is written in digits. -/
theorem isDigit_of_mem_naturalText {n : Nat} {c : Char} (h : c ∈ naturalText n) :
    c.isDigit = true :=
  Nat.isDigit_of_mem_toDigits (by decide) (by decide) h

/-- A natural number is read back. -/
theorem ofDigitChars_naturalText (n : Nat) : Nat.ofDigitChars 10 (naturalText n) 0 = n :=
  Nat.ofDigitChars_ten_toDigits

/-- Zero is written as one digit. -/
theorem naturalText_zero : naturalText 0 = ['0'] := rfl

/-- The text of a positive number does not begin with a zero. -/
theorem naturalText_eq_cons {n : Nat} (h : 0 < n) :
    ∃ c rest, naturalText n = c :: rest ∧ c ≠ '0' := by
  induction n using Nat.strong_induction_on with
  | _ n ih =>
    unfold naturalText at ih ⊢
    rw [Nat.toDigits_eq_if (by decide)]
    split
    · refine ⟨_, [], rfl, ?_⟩
      rw [ne_eq, Nat.digitChar_eq_zero]
      omega
    · obtain ⟨c, rest, hrest, hc⟩ := ih (n / 10) (by omega) (by omega)
      exact ⟨c, rest ++ [Nat.digitChar (n % 10)], by rw [hrest]; rfl, hc⟩

end Decimal

namespace Json

/-! ## Characters of numbers -/

/-- The value of a digit is found from its character. -/
theorem digit?_of_isDigit {c : Char} (h : c.isDigit = true) :
    digit? c = some (c.toNat - '0'.toNat) := by
  unfold Char.isDigit at h
  rw [Bool.and_eq_true, decide_eq_true_eq, decide_eq_true_eq] at h
  unfold digit?
  rw [if_pos (show '0' ≤ c ∧ c ≤ '9' from h)]

/-- There are ten digits. -/
theorem exists_digitChar {c : Char} (hc : c.isDigit = true) : ∃ d < 10, c = Nat.digitChar d := by
  unfold Char.isDigit at hc
  rw [Bool.and_eq_true, decide_eq_true_eq, decide_eq_true_eq] at hc
  have hlow : 48 ≤ c.toNat := hc.1
  have hhigh : c.toNat ≤ 57 := hc.2
  refine ⟨c.toNat - 48, by omega, ?_⟩
  apply Char.ext
  apply UInt32.toNat_inj.mp
  show c.toNat = (Nat.digitChar (c.toNat - 48)).toNat
  rw [Nat.toNat_digitChar_of_lt_ten (by omega)]
  omega

/-- Any digit but zero begins the whole part of a number. -/
theorem Scan.begin_digit {c : Char} (h : c.isDigit = true) (hc : c ≠ '0') :
    Scan.begin c = ([], some (.number .whole
      { NumberToken.start false with digits := c.toNat - '0'.toNat })) := by
  obtain ⟨d, hd, rfl⟩ := exists_digitChar h
  interval_cases d
  · exact absurd rfl hc
  all_goals rfl

/-- A character that ends no token leads to the next state of the scan. -/
theorem Scan.tokens_cons {scan next : Scan} {c : Char} {rest : List Char}
    (h : scan.step c rest = ([], some next)) : scan.tokens (c :: rest) = next.tokens rest := by
  rw [Scan.tokens, h]
  rfl

/-! ## Runs of digits -/

variable {n : NumberToken} {digits tail : List Char}

/-- Behind the first digit of a number a digit belongs to the whole part, the places or the
exponent. -/
theorem Scan.step_digit {stage : NumberStage} (hsign : stage ≠ .sign) (hzero : stage ≠ .zero)
    {c : Char} (hc : c.isDigit = true) (rest : List Char) :
    Scan.step (.number stage n) c rest = ([], some (match stage with
      | .sign | .zero | .whole =>
        .number .whole { n with digits := 10 * n.digits + (c.toNat - '0'.toNat) }
      | .point | .places =>
        .number .places { n with
          digits := 10 * n.digits + (c.toNat - '0'.toNat), places := n.places + 1 }
      | .mark | .exponentSign | .exponent =>
        .number .exponent { n with
          exponentDigits := 10 * n.exponentDigits + (c.toNat - '0'.toNat) })) := by
  unfold Scan.step Scan.inNumber
  rw [digit?_of_isDigit hc]
  cases stage with
  | sign => exact absurd rfl hsign
  | zero => exact absurd rfl hzero
  | _ => rfl

/-- Digits in the whole part add to it. -/
theorem tokens_whole (h : ∀ c ∈ digits, c.isDigit = true) :
    Scan.tokens (.number .whole n) (digits ++ tail) =
      Scan.tokens (.number .whole { n with digits := Nat.ofDigitChars 10 digits n.digits })
        tail := by
  induction digits generalizing n with
  | nil => rw [Nat.ofDigitChars_nil]; rfl
  | cons c rest ih =>
    have hc := h c (List.mem_cons_self ..)
    rw [List.cons_append, Scan.tokens_cons (Scan.step_digit (by simp) (by simp) hc _),
      ih fun d hd => h d (List.mem_cons_of_mem _ hd), Nat.ofDigitChars_cons]

/-- Digits after the point are counted as places. -/
theorem tokens_places (h : ∀ c ∈ digits, c.isDigit = true) :
    Scan.tokens (.number .places n) (digits ++ tail) =
      Scan.tokens (.number .places { n with
        digits := Nat.ofDigitChars 10 digits n.digits
        places := n.places + digits.length }) tail := by
  induction digits generalizing n with
  | nil => rw [Nat.ofDigitChars_nil]; rfl
  | cons c rest ih =>
    have hc := h c (List.mem_cons_self ..)
    rw [List.cons_append, Scan.tokens_cons (Scan.step_digit (by simp) (by simp) hc _),
      ih fun d hd => h d (List.mem_cons_of_mem _ hd), Nat.ofDigitChars_cons, List.length_cons]
    dsimp only
    rw [Nat.add_assoc, Nat.add_comm 1]

/-- Digits after the exponent's letter add to the exponent. -/
theorem tokens_exponent (h : ∀ c ∈ digits, c.isDigit = true) :
    Scan.tokens (.number .exponent n) (digits ++ tail) =
      Scan.tokens (.number .exponent { n with
        exponentDigits := Nat.ofDigitChars 10 digits n.exponentDigits }) tail := by
  induction digits generalizing n with
  | nil => rw [Nat.ofDigitChars_nil]; rfl
  | cons c rest ih =>
    have hc := h c (List.mem_cons_self ..)
    rw [List.cons_append, Scan.tokens_cons (Scan.step_digit (by simp) (by simp) hc _),
      ih fun d hd => h d (List.mem_cons_of_mem _ hd), Nat.ofDigitChars_cons]

/-- After a point there is at least one digit. -/
theorem tokens_point (hne : digits ≠ []) (h : ∀ c ∈ digits, c.isDigit = true) :
    Scan.tokens (.number .point n) (digits ++ tail) =
      Scan.tokens (.number .places { n with
        digits := Nat.ofDigitChars 10 digits n.digits
        places := n.places + digits.length }) tail := by
  cases digits with
  | nil => exact absurd rfl hne
  | cons c rest =>
    have hc := h c (List.mem_cons_self ..)
    rw [List.cons_append, Scan.tokens_cons (Scan.step_digit (by simp) (by simp) hc _),
      tokens_places fun d hd => h d (List.mem_cons_of_mem _ hd), Nat.ofDigitChars_cons,
      List.length_cons]
    dsimp only
    rw [Nat.add_assoc, Nat.add_comm 1]

/-- After the mark of an exponent, or after its sign, there is at least one digit. -/
theorem tokens_exponentDigits {stage : NumberStage} (hstage : stage = .mark ∨ stage = .exponentSign)
    (hne : digits ≠ []) (h : ∀ c ∈ digits, c.isDigit = true) :
    Scan.tokens (.number stage n) (digits ++ tail) =
      Scan.tokens (.number .exponent { n with
        exponentDigits := Nat.ofDigitChars 10 digits n.exponentDigits }) tail := by
  cases digits with
  | nil => exact absurd rfl hne
  | cons c rest =>
    have hc := h c (List.mem_cons_self ..)
    have hstep : Scan.step (.number stage n) c (rest ++ tail) =
        ([], some (.number .exponent { n with
          exponentDigits := 10 * n.exponentDigits + (c.toNat - '0'.toNat) })) := by
      rcases hstage with rfl | rfl <;> exact Scan.step_digit (by simp) (by simp) hc _
    rw [List.cons_append, Scan.tokens_cons hstep,
      tokens_exponent fun d hd => h d (List.mem_cons_of_mem _ hd), Nat.ofDigitChars_cons]

/-! ## Whole numbers and their continuations -/

/-- The minus sign of a negative number. -/
def signText (negative : Bool) : List Char := if negative then ['-'] else []

/-- A text that does not begin with zero is a whole number so far. -/
theorem tokens_leading {negative : Bool} {c : Char} (hc : c ≠ '0')
    (h : ∀ d ∈ c :: digits, d.isDigit = true) :
    Scan.tokens .between (signText negative ++ (c :: digits ++ tail)) =
      Scan.tokens (.number .whole { NumberToken.start negative with
        digits := Nat.ofDigitChars 10 (c :: digits) 0 }) tail := by
  have hdigit := h c (List.mem_cons_self ..)
  have hrest : ∀ d ∈ digits, d.isDigit = true := fun d hd => h d (List.mem_cons_of_mem _ hd)
  rw [Nat.ofDigitChars_cons, Nat.mul_zero, Nat.zero_add, List.cons_append]
  cases negative with
  | false =>
    have hbegin : Scan.step .between c (digits ++ tail) = ([], some (.number .whole
        { NumberToken.start false with digits := c.toNat - '0'.toNat })) :=
      Scan.begin_digit hdigit hc
    show Scan.tokens .between (c :: (digits ++ tail)) = _
    rw [Scan.tokens_cons hbegin, tokens_whole hrest]
  | true =>
    have hpositive : ∃ d, c.toNat - '0'.toNat = d + 1 := by
      refine ⟨c.toNat - '0'.toNat - 1, ?_⟩
      have hlow : 48 ≤ c.toNat := by
        unfold Char.isDigit at hdigit
        rw [Bool.and_eq_true, decide_eq_true_eq] at hdigit
        exact hdigit.1
      have hne : c.toNat ≠ 48 := by
        intro heq
        apply hc
        rw [← Char.ofNat_toNat c, heq]
      show c.toNat - 48 = c.toNat - 48 - 1 + 1
      omega
    obtain ⟨d, hd⟩ := hpositive
    have hstep : Scan.step (.number .sign (.start true)) c (digits ++ tail) =
        ([], some (.number .whole { NumberToken.start true with digits := d + 1 })) := by
      unfold Scan.step Scan.inNumber
      rw [digit?_of_isDigit hdigit, hd]
      simp [NumberToken.start]
    show Scan.tokens .between ('-' :: c :: (digits ++ tail)) = _
    have hsign : Scan.step .between '-' (c :: (digits ++ tail)) =
        ([], some (.number .sign (.start true))) := rfl
    rw [Scan.tokens_cons hsign, Scan.tokens_cons hstep, tokens_whole hrest, hd]

/-- A zero in front ends the whole part. -/
theorem tokens_leadingZero (negative : Bool) :
    Scan.tokens .between (signText negative ++ '0' :: tail) =
      Scan.tokens (.number .zero (.start negative)) tail := by
  cases negative with
  | false => exact Scan.tokens_cons rfl
  | true => exact (Scan.tokens_cons rfl).trans (Scan.tokens_cons rfl)

/-- What can follow a number: nothing that continues it. -/
def NumberEnd (tail : List Char) : Prop :=
  ∀ c rest, tail = c :: rest → digit? c = none ∧ c ≠ '.' ∧ c ≠ 'e' ∧ c ≠ 'E'

/-- The end of the text ends a number. -/
theorem numberEnd_nil : NumberEnd [] := by
  intro c rest h
  cases h

/-- A number may end where nothing continues it. -/
theorem tokens_numberEnd {stage : NumberStage} (hstage : stage.complete = true)
    (h : NumberEnd tail) :
    Scan.tokens (.number stage n) tail = .number n :: Scan.tokens .between tail := by
  cases tail with
  | nil =>
    rw [Scan.tokens, Scan.finish, if_pos hstage]
    rfl
  | cons c rest =>
    obtain ⟨hdigit, hpoint, hlower, hupper⟩ := h c rest rfl
    have hstep : Scan.step (.number stage n) c rest =
        (.number n :: (Scan.begin c).1, (Scan.begin c).2) := by
      unfold Scan.step Scan.inNumber
      rw [hdigit]
      cases stage with
      | sign | point | mark | exponentSign => cases hstage
      | zero | whole | places | exponent => simp [hpoint, hlower, hupper]
    rw [Scan.tokens, Scan.tokens, hstep, Scan.step]
    rcases Scan.begin c with ⟨found, _ | next⟩ <;> rfl

/-! ## Number texts -/

/-- The text is that of one number token, whatever follows that does not continue it. -/
def Writes (text : List Char) (token : NumberToken) : Prop :=
  ∀ tail, NumberEnd tail →
    Scan.tokens .between (text ++ tail) = .number token :: Scan.tokens .between tail

/-- A natural number is written as one number token. -/
theorem writes_natural (negative : Bool) (m : Nat) :
    Writes (signText negative ++ naturalText m)
      { NumberToken.start negative with digits := m } := by
  intro tail htail
  rw [List.append_assoc]
  by_cases hm : m = 0
  · subst hm
    rw [Decimal.naturalText_zero, List.singleton_append, tokens_leadingZero]
    exact tokens_numberEnd rfl htail
  · obtain ⟨c, rest, htext, hc⟩ := Decimal.naturalText_eq_cons (Nat.pos_of_ne_zero hm)
    have hdigits : ∀ d ∈ c :: rest, d.isDigit = true :=
      fun d hd => Decimal.isDigit_of_mem_naturalText (htext ▸ hd)
    rw [htext, tokens_leading hc hdigits, ← htext, Decimal.ofDigitChars_naturalText]
    exact tokens_numberEnd rfl htail

/-- The text of an integer is a number without places and exponent. -/
theorem writes_integerText (m : Int) :
    Writes (integerText m) { NumberToken.start (decide (m < 0)) with digits := m.natAbs } := by
  have htext : integerText m = signText (decide (m < 0)) ++ naturalText m.natAbs := by
    unfold integerText signText
    by_cases hm : m < 0
    · rw [if_pos hm, if_pos (decide_eq_true hm)]
      rfl
    · rw [if_neg hm, if_neg (by rwa [decide_eq_true_eq])]
      rfl
  rw [htext]
  exact writes_natural _ _

/-- The token of a decimal: it says that it is no whole number, and its digits and exponent are
those of the decimal, or those of the decimal with all places and one more written out. -/
structure NumberToken.IsDecimal (token : NumberToken) (negative : Bool) (s : Scientific) :
    Prop where
  negative_eq : token.negative = negative
  isWhole_eq : token.isWhole = false
  value_eq : token.digits = s.digits ∧ token.exponent = s.exponent ∨
    0 ≤ s.exponent ∧ token.digits = s.digits * 10 ^ (s.exponent.toNat + 1) ∧
      token.exponent = -1

variable {s : Scientific}

/-- With all places written out, a decimal that is a whole number has one place more. -/
theorem writes_positional_whole (negative : Bool) (hs : 0 < s.digits) (he : 0 ≤ s.exponent) :
    ∃ token, Writes (signText negative ++ positionalText s) token ∧
      token.IsDecimal negative s := by
  obtain ⟨c, rest, htext, hc⟩ := Decimal.naturalText_eq_cons hs
  have hdigits : ∀ d ∈ c :: (rest ++ List.replicate s.exponent.toNat '0'), d.isDigit = true := by
    intro d hd
    rw [← List.cons_append, ← htext, List.mem_append] at hd
    rcases hd with hd | hd
    · exact Decimal.isDigit_of_mem_naturalText hd
    · rw [List.eq_of_mem_replicate hd]
      rfl
  have hvalue : Nat.ofDigitChars 10 (c :: (rest ++ List.replicate s.exponent.toNat '0')) 0 =
      10 ^ s.exponent.toNat * s.digits := by
    rw [← List.cons_append, ← htext, Nat.ofDigitChars_append, Decimal.ofDigitChars_naturalText,
      Nat.ofDigitChars_replicate_zero]
  refine ⟨{ NumberToken.start negative with
    digits := 10 * (10 ^ s.exponent.toNat * s.digits), places := 1 }, ?_, rfl, rfl, Or.inr ?_⟩
  · intro tail htail
    have hshape : signText negative ++ positionalText s ++ tail = signText negative ++
        (c :: (rest ++ List.replicate s.exponent.toNat '0') ++ '.' :: '0' :: tail) := by
      unfold positionalText
      dsimp only
      rw [if_pos he, htext]
      simp only [List.append_assoc, List.cons_append, List.nil_append]
    rw [hshape, tokens_leading hc hdigits, hvalue]
    have hpoint : ∀ n, Scan.step (.number .whole n) '.' ('0' :: tail) =
        ([], some (.number .point n)) := fun n => rfl
    have hzero : ∀ n, Scan.step (.number .point n) '0' tail =
        ([], some (.number .places { n with
          digits := 10 * n.digits, places := n.places + 1 })) := fun n => rfl
    rw [Scan.tokens_cons (hpoint _), Scan.tokens_cons (hzero _), tokens_numberEnd rfl htail]
    rfl
  · refine ⟨he, ?_, rfl⟩
    rw [Nat.pow_succ]
    ring

/-- A point before the last digits of a number. -/
theorem tokens_pointWithin {n places : Nat} (negative : Bool) (hn : 0 < n) (hpos : 0 < places)
    (hlt : places < (naturalText n).length) (htail : NumberEnd tail) :
    Scan.tokens .between (signText negative ++
        ((naturalText n).take ((naturalText n).length - places) ++
          '.' :: (naturalText n).drop ((naturalText n).length - places)) ++ tail) =
      .number { NumberToken.start negative with digits := n, places := places } ::
        Scan.tokens .between tail := by
  have hall : ∀ d ∈ naturalText n, d.isDigit = true :=
    fun d hd => Decimal.isDigit_of_mem_naturalText hd
  obtain ⟨c, rest, htext, hc⟩ := Decimal.naturalText_eq_cons hn
  rw [htext] at hlt hall ⊢
  obtain ⟨k, hk⟩ : ∃ k, (c :: rest).length - places = k + 1 :=
    ⟨(c :: rest).length - places - 1, by omega⟩
  have hdrop : (rest.drop k).length = places := by
    rw [List.length_cons] at hk hlt
    rw [List.length_drop]
    omega
  have hne : rest.drop k ≠ [] := List.ne_nil_of_length_pos (hdrop ▸ hpos)
  have htake : ∀ d ∈ c :: rest.take k, d.isDigit = true :=
    fun d hd => hall d (List.cons_subset_cons c (List.take_subset k rest) hd)
  have hrest : ∀ d ∈ rest.drop k, d.isDigit = true :=
    fun d hd => hall d (List.mem_cons_of_mem _ (List.mem_of_mem_drop hd))
  have hpoint : ∀ n, Scan.step (.number .whole n) '.' (rest.drop k ++ tail) =
      ([], some (.number .point n)) := fun n => rfl
  have hvalue : Nat.ofDigitChars 10 (rest.drop k) (Nat.ofDigitChars 10 (c :: rest.take k) 0) =
      n := by
    rw [← Nat.ofDigitChars_append, List.cons_append, List.take_append_drop, ← htext,
      Decimal.ofDigitChars_naturalText]
  rw [hk, List.take_succ_cons, List.drop_succ_cons, List.append_assoc, List.append_assoc,
    tokens_leading hc htake, List.cons_append, Scan.tokens_cons (hpoint _),
    tokens_point hne hrest, tokens_numberEnd rfl htail, hdrop]
  dsimp only
  rw [hvalue]
  simp only [NumberToken.start, Nat.zero_add]

/-- A point before zeros and all digits of a number. -/
theorem tokens_pointBefore {n places : Nat} (negative : Bool)
    (hge : (naturalText n).length ≤ places) (htail : NumberEnd tail) :
    Scan.tokens .between (signText negative ++
        (['0', '.'] ++ List.replicate (places - (naturalText n).length) '0' ++ naturalText n) ++
          tail) =
      .number { NumberToken.start negative with digits := n, places := places } ::
        Scan.tokens .between tail := by
  have hne : List.replicate (places - (naturalText n).length) '0' ++ naturalText n ≠ [] := by
    intro hnil
    exact Nat.toDigits_ne_nil (List.append_eq_nil_iff.mp hnil).2
  have hzeros : ∀ d ∈ List.replicate (places - (naturalText n).length) '0' ++ naturalText n,
      d.isDigit = true := by
    intro d hd
    rcases List.mem_append.mp hd with hd | hd
    · rw [List.eq_of_mem_replicate hd]
      rfl
    · exact Decimal.isDigit_of_mem_naturalText hd
  have hpoint : ∀ n rest, Scan.step (.number .zero n) '.' rest =
      ([], some (.number .point n)) := fun n rest => rfl
  have hshape : ∀ digits : List Char, signText negative ++ (['0', '.'] ++ digits) ++ tail =
      signText negative ++ '0' :: '.' :: (digits ++ tail) := by
    intro digits
    simp only [List.append_assoc, List.cons_append, List.nil_append]
  rw [List.append_assoc ['0', '.'], hshape, tokens_leadingZero,
    Scan.tokens_cons (hpoint _ _), tokens_point hne hzeros, tokens_numberEnd rfl htail]
  rw [Nat.ofDigitChars_append, Nat.ofDigitChars_replicate_zero, List.length_append,
    List.length_replicate]
  simp only [NumberToken.start, Nat.mul_zero, Decimal.ofDigitChars_naturalText, Nat.zero_add]
  rw [Nat.sub_add_cancel hge]

/-- With all places written out, the point stands before the last ones of the digits or before zeros
and all of them. -/
theorem writes_positional_fraction (negative : Bool) (hs : 0 < s.digits) (he : s.exponent < 0) :
    ∃ token, Writes (signText negative ++ positionalText s) token ∧
      token.IsDecimal negative s := by
  obtain ⟨places, hplaces⟩ : ∃ places, (-s.exponent).toNat = places := ⟨_, rfl⟩
  have hpos : 0 < places := by omega
  refine ⟨{ NumberToken.start negative with digits := s.digits, places := places }, ?_, rfl, ?_,
    Or.inl ⟨rfl, ?_⟩⟩
  · intro tail htail
    unfold positionalText
    dsimp only
    rw [if_neg (by omega), hplaces]
    split
    · next hlt => exact tokens_pointWithin negative hs hpos hlt htail
    · next hge => exact tokens_pointBefore negative (Nat.le_of_not_lt hge) htail
  · unfold NumberToken.isWhole
    rw [Bool.and_eq_false_iff]
    exact Or.inl (decide_eq_false (Nat.ne_of_gt hpos))
  · show (if false then _ else ((0 : Nat) : Int)) - (places : Int) = s.exponent
    simp only [Bool.false_eq_true, if_false]
    omega

/-- Digits with a point after the first one, up to the mark of the exponent. -/
theorem tokens_mantissa (layout : Layout) (leading : Int) (negative : Bool) (hs : 0 < s.digits) :
    Scan.tokens .between (signText negative ++ (exponentText layout s leading ++ tail)) =
      Scan.tokens (.number .mark { NumberToken.start negative with
        digits := s.digits, places := (naturalText s.digits).length - 1, scaled := true })
        ((if 0 ≤ leading then layout.exponentPlus else []) ++ integerText leading ++ tail) := by
  obtain ⟨c, places, htext, hc⟩ := Decimal.naturalText_eq_cons hs
  have hdigits : ∀ d ∈ naturalText s.digits, d.isDigit = true :=
    fun d hd => Decimal.isDigit_of_mem_naturalText hd
  have hvalue := Decimal.ofDigitChars_naturalText s.digits
  unfold exponentText
  dsimp only
  rw [htext] at hdigits hvalue ⊢
  generalize (if 0 ≤ leading then layout.exponentPlus else []) ++ integerText leading = exponent
  rw [List.append_assoc, List.cons_append]
  generalize exponent ++ tail = rest
  cases places with
  | nil =>
    have hmark : ∀ n, Scan.step (.number .whole n) 'e' rest =
        ([], some (.number .mark { n with scaled := true })) := fun n => rfl
    rw [tokens_leading hc hdigits, Scan.tokens_cons (hmark _), hvalue]
    rfl
  | cons place places =>
    have hfirst : ∀ d ∈ [c], d.isDigit = true := by
      intro d hd
      rw [List.mem_singleton.mp hd]
      exact hdigits c (List.mem_cons_self ..)
    have hplaces : ∀ d ∈ place :: places, d.isDigit = true :=
      fun d hd => hdigits d (List.mem_cons_of_mem _ hd)
    have hpoint : ∀ n rest, Scan.step (.number .whole n) '.' rest =
        ([], some (.number .point n)) := fun n rest => rfl
    have hmark : ∀ n, Scan.step (.number .places n) 'e' rest =
        ([], some (.number .mark { n with scaled := true })) := fun n => rfl
    have hshape : (c :: '.' :: place :: places) ++ 'e' :: rest =
        [c] ++ '.' :: (place :: places ++ 'e' :: rest) := rfl
    have hvalue' : Nat.ofDigitChars 10 (place :: places) (Nat.ofDigitChars 10 [c] 0) =
        s.digits := by
      rw [← Nat.ofDigitChars_append]
      exact hvalue
    dsimp only
    rw [hshape, tokens_leading hc hfirst, Scan.tokens_cons (hpoint _ _),
      tokens_point (List.cons_ne_nil _ _) hplaces, Scan.tokens_cons (hmark _)]
    dsimp only
    rw [hvalue']
    simp only [NumberToken.start, Nat.zero_add, List.length_cons, Nat.add_sub_cancel]

/-- An exponent after its mark, with or without a plus sign. -/
theorem tokens_exponentSign {plus : List Char} (hplus : plus = [] ∨ plus = ['+']) (leading : Int)
    (hnegative : n.exponentNegative = false) (hdigits : n.exponentDigits = 0) :
    Scan.tokens (.number .mark n)
      ((if 0 ≤ leading then plus else []) ++ integerText leading ++ tail) =
      Scan.tokens (.number .exponent { n with
        exponentNegative := decide (leading < 0), exponentDigits := leading.natAbs }) tail := by
  have hne : naturalText leading.natAbs ≠ [] := Nat.toDigits_ne_nil
  have hall : ∀ d ∈ naturalText leading.natAbs, d.isDigit = true :=
    fun d hd => Decimal.isDigit_of_mem_naturalText hd
  unfold integerText
  by_cases hleading : leading < 0
  · have hminus : ∀ rest, Scan.step (.number .mark n) '-' rest =
        ([], some (.number .exponentSign { n with exponentNegative := true })) := fun rest => rfl
    rw [if_neg (by omega), if_pos hleading, List.nil_append, List.cons_append,
      Scan.tokens_cons (hminus _), tokens_exponentDigits (Or.inr rfl) hne hall, hdigits,
      Decimal.ofDigitChars_naturalText, decide_eq_true hleading]
  · have hplain : { n with exponentNegative := false } = n := by
      rw [← hnegative]
    rw [if_pos (by omega), if_neg hleading, decide_eq_false hleading]
    rcases hplus with rfl | rfl
    · rw [List.nil_append, tokens_exponentDigits (Or.inl rfl) hne hall, hdigits,
        Decimal.ofDigitChars_naturalText, hnegative]
    · have hsign : ∀ rest, Scan.step (.number .mark n) '+' rest =
          ([], some (.number .exponentSign n)) := fun rest => rfl
      rw [List.singleton_append, List.cons_append, Scan.tokens_cons (hsign _),
        tokens_exponentDigits (Or.inr rfl) hne hall, hdigits, Decimal.ofDigitChars_naturalText,
        hnegative]

/-- The exponent in a text is that of the first digit. -/
theorem writes_exponentText {layout : Layout}
    (hplus : layout.exponentPlus = [] ∨ layout.exponentPlus = ['+']) (negative : Bool)
    (hs : 0 < s.digits) :
    ∃ token, Writes (signText negative ++
        exponentText layout s (s.exponent + (naturalText s.digits).length - 1)) token ∧
      token.IsDecimal negative s := by
  obtain ⟨leading, hleading⟩ :
      ∃ leading : Int, s.exponent + (naturalText s.digits).length - 1 = leading := ⟨_, rfl⟩
  have hlength : 0 < (naturalText s.digits).length := Nat.length_toDigits_pos
  refine ⟨{ NumberToken.start negative with
    digits := s.digits
    places := (naturalText s.digits).length - 1
    scaled := true
    exponentNegative := decide (leading < 0)
    exponentDigits := leading.natAbs }, ?_, rfl, ?_, Or.inl ⟨rfl, ?_⟩⟩
  · intro tail htail
    rw [hleading, List.append_assoc, tokens_mantissa layout leading negative hs,
      tokens_exponentSign hplus leading rfl rfl, tokens_numberEnd rfl htail]
  · unfold NumberToken.isWhole
    rw [Bool.and_eq_false_iff]
    exact Or.inr rfl
  · unfold NumberToken.exponent
    dsimp only
    by_cases hnegative : leading < 0
    · rw [if_pos (decide_eq_true hnegative)]
      omega
    · rw [if_neg (by rwa [decide_eq_true_eq])]
      omega

/-- The text of a positive decimal in any format. -/
theorem writes_scientificText {layout : Layout}
    (hplus : layout.exponentPlus = [] ∨ layout.exponentPlus = ['+']) (negative : Bool)
    (hs : 0 < s.digits) :
    ∃ token, Writes (signText negative ++ layout.scientificText s) token ∧
      token.IsDecimal negative s := by
  unfold Layout.scientificText
  dsimp only
  split
  · rcases Int.lt_or_le s.exponent 0 with he | he
    · exact writes_positional_fraction negative hs he
    · exact writes_positional_whole negative hs he
  · exact writes_exponentText hplus negative hs

/-- The token is written for a magnitude: it says that it is no whole number, and the decimal that it
spells lies in the interval around the magnitude. -/
structure NumberToken.Spells (f : Format) (token : NumberToken) (negative : Bool) (code : Nat) :
    Prop where
  negative_eq : token.negative = negative
  isWhole_eq : token.isWhole = false
  zero_or_fits : code = 0 ∧ token.digits = 0 ∨
    0 < code ∧ Scientific.Fits ⟨token.digits, token.exponent⟩ f code

/-- The text of a finite magnitude is that of one token, which is written for the magnitude. -/
theorem writes_magnitude {f : Format} {layout : Layout}
    (hplus : layout.exponentPlus = [] ∨ layout.exponentPlus = ['+']) (negative : Bool)
    {code : Fin (f.infinityCode + 1)} (hlt : code.val < f.infinityCode) :
    ∃ token, Writes (layout.text (.signed negative code)) token ∧
      token.Spells f negative code.val := by
  have htext : layout.text (.signed negative code) =
      signText negative ++ layout.scientificText (shortest f layout.tie code.val) := by
    unfold Layout.text signText
    dsimp only
    rw [if_pos hlt]
  rw [htext]
  by_cases hcode : code.val = 0
  · have hzero : shortest f layout.tie code.val = ⟨0, 0⟩ := by
      unfold shortest
      rw [if_pos hcode]
    have hpositional : layout.scientificText ⟨0, 0⟩ = ['0', '.', '0'] := by
      unfold Layout.scientificText
      dsimp only
      rw [if_pos (Or.inl rfl)]
      rfl
    rw [hzero, hpositional]
    refine ⟨{ NumberToken.start negative with places := 1 }, ?_, rfl, rfl, Or.inl ⟨hcode, rfl⟩⟩
    intro tail htail
    rw [List.append_assoc]
    show Scan.tokens .between (signText negative ++ '0' :: '.' :: '0' :: tail) = _
    have hpoint : ∀ n, Scan.step (.number .zero n) '.' ('0' :: tail) =
        ([], some (.number .point n)) := fun n => rfl
    have hplace : ∀ n, Scan.step (.number .point n) '0' tail =
        ([], some (.number .places { n with
          digits := 10 * n.digits, places := n.places + 1 })) := fun n => rfl
    rw [tokens_leadingZero, Scan.tokens_cons (hpoint _), Scan.tokens_cons (hplace _),
      tokens_numberEnd rfl htail]
    rfl
  · have hpos : 0 < code.val := Nat.pos_of_ne_zero hcode
    have hfits : (shortest f layout.tie code.val).Fits f code.val := Decimal.fits_shortest hpos
    obtain ⟨token, hwrites, htoken⟩ := writes_scientificText hplus negative hfits.1
    refine ⟨token, hwrites, htoken.negative_eq, htoken.isWhole_eq, Or.inr ⟨hpos, ?_⟩⟩
    rcases htoken.value_eq with ⟨hdigits, hexponent⟩ | ⟨hexp, hdigits, hexponent⟩
    · rw [hdigits, hexponent]
      exact hfits
    · rw [hdigits, hexponent]
      exact Decimal.fits_positional hexp hfits

/-- The decimal of a token that is written for a finite magnitude is nearest to that magnitude. -/
theorem NumberToken.Spells.ofDecimal_eq {f : Format} (hf : 1 ≤ f.fractionBits)
    (he : 2 ≤ f.exponentBits) {token : NumberToken} {negative : Bool}
    {code : Fin (f.infinityCode + 1)} (hlt : code.val < f.infinityCode)
    (h : token.Spells f negative code.val) :
    Floating.ofDecimal token.negative token.digits token.exponent = .signed negative code := by
  rw [h.negative_eq]
  rcases h.zero_or_fits with ⟨hcode, hdigits⟩ | ⟨hpos, hfits⟩
  · unfold Floating.ofDecimal
    rw [if_pos hdigits]
    congr 1
    exact Fin.ext hcode.symm
  · exact Floating.ofDecimal_of_fits hf he hpos hlt hfits negative

/-- The text of a finite floating-point number is that of one token, which is no whole number and
whose decimal is nearest to the number that was written. -/
theorem writes_float {f : Format} (hf : 1 ≤ f.fractionBits) (he : 2 ≤ f.exponentBits)
    {layout : Layout} (hplus : layout.exponentPlus = [] ∨ layout.exponentPlus = ['+'])
    {x : Floating f} (hx : x.isFinite = true) :
    ∃ token, Writes (layout.text x) token ∧ token.isWhole = false ∧
      Floating.ofDecimal token.negative token.digits token.exponent = x := by
  cases x with
  | nan => cases hx
  | signed negative code =>
    have hlt : code.val < f.infinityCode := of_decide_eq_true hx
    obtain ⟨token, hwrites, hspells⟩ := writes_magnitude hplus negative hlt
    exact ⟨token, hwrites, hspells.isWhole_eq, hspells.ofDecimal_eq hf he hlt⟩

/-- A text is that of one token only. -/
theorem Writes.unique {text : List Char} {token token' : NumberToken} (h : Writes text token)
    (h' : Writes text token') : token = token' := by
  have heq := (h [] numberEnd_nil).symm.trans (h' [] numberEnd_nil)
  cases heq
  rfl

end Json

end DocumentStore
