/-
  File:      CMinusMinus/Proofs/Numerals.lean
  Subject:   How a run of figures is read, and a number read back from its digits.

  A run of figures holds no blank, sign or underscore, so it is read up to its first figure without
  a decimal value. It denotes a number if it has no such figure and is not too long. The digits that
  a number is written with are the ten of ASCII; reading them gives the number back, unless there
  are too many. A number may have a minus sign in front of its digits, and no two numbers have the
  same text.

  * `readInt_figures` -- what is made of a run of figures;
  * `readInt_isOk_iff` -- which runs denote a number;
  * `readInt_repr` -- a number is read back;
  * `IsDecimal`, `isDecimal_int` -- what the text of a number is made of;
  * `int_text_inj` -- numbers are told apart by their texts.
-/
import CMinusMinus.Text.Numeral
import Mathlib.Data.List.TakeWhile

namespace CMinusMinus.Text

/-! ## 1. Figures -/

/-- A decimal digit lies in one of the runs of ten. -/
theorem exists_zero_of_decimal? {c : Char} (h : (decimal? c).isSome = true) :
    ∃ z ∈ decimalZeros, z ≤ c.toNat ∧ c.toNat < z + 10 := by
  unfold decimal? runOffset? at h
  rw [Option.isSome_map] at h
  obtain ⟨z, hz⟩ := Option.isSome_iff_exists.mp h
  exact ⟨z, List.mem_of_find?_eq_some hz, by simpa using List.find?_some hz⟩

theorem not_isBlank_of_isDigit {c : Char} (h : isDigit c = true) : isBlank c = false := by
  by_contra hblank
  rw [Bool.not_eq_false] at hblank
  obtain ⟨i, hi, hwithin⟩ := exists_of_covers hblank
  have hruns : ∀ i ∈ blankIntervals, ∀ z ∈ decimalZeros, ¬ (i.1 < z + 10 ∧ z ≤ i.2) := by decide
  have hothers : ∀ i ∈ blankIntervals, ∀ j ∈ ornamentedIntervals, ¬ (i.1 ≤ j.2 ∧ j.1 ≤ i.2) := by
    decide
  rcases Bool.or_eq_true_iff.mp h with hdecimal | hornamented
  · obtain ⟨z, hz, hlow, hhigh⟩ := exists_zero_of_decimal? hdecimal
    exact hruns i hi z hz ⟨by omega, by omega⟩
  · obtain ⟨j, hj, hfigure⟩ := exists_of_covers hornamented
    exact hothers i hi j hj ⟨by omega, by omega⟩

theorem ne_of_isDigit {c d : Char} (h : isDigit c = true) (hd : isDigit d = false) : c ≠ d := by
  rintro rfl
  rw [h] at hd
  cases hd

section Figures

variable {cs : List Char} (hcs : ∀ c ∈ cs, isDigit c = true)

include hcs

theorem wellSeparated_go_of_isDigit : wellSeparated.go cs = true := by
  induction cs with
  | nil => rfl
  | cons c rest ih =>
    obtain ⟨hc, hrest⟩ := List.forall_mem_cons.mp hcs
    rw [wellSeparated.go.eq_def]
    dsimp only
    rw [if_neg (ne_of_isDigit hc (by decide))]
    exact ih hrest

theorem wellSeparated_of_isDigit : wellSeparated cs = true := by
  cases cs with
  | nil => rfl
  | cons c rest =>
    obtain ⟨hc, hrest⟩ := List.forall_mem_cons.mp hcs
    rw [wellSeparated, wellSeparated_go_of_isDigit hrest]
    simpa using ne_of_isDigit hc (by decide)

/-- A run of figures starts with no sign. -/
theorem splitSign_of_isDigit : splitSign cs = (false, cs) := by
  unfold splitSign
  split
  · exact absurd (hcs '-' List.mem_cons_self) (by decide)
  · exact absurd (hcs '+' List.mem_cons_self) (by decide)
  · rfl

theorem dropWhile_isBlank_of_isDigit : cs.dropWhile isBlank = cs := by
  cases cs with
  | nil => rfl
  | cons c rest =>
    exact List.dropWhile_cons_of_neg (by simp [not_isBlank_of_isDigit (hcs c List.mem_cons_self)])

/-- Among figures an underscore makes no difference. -/
theorem cut_figures :
    cs.takeWhile (fun c => (decimal? c).isSome || c == '_') =
        cs.takeWhile (fun c => (decimal? c).isSome) ∧
      cs.dropWhile (fun c => (decimal? c).isSome || c == '_') =
        cs.dropWhile fun c => (decimal? c).isSome := by
  induction cs with
  | nil => exact ⟨rfl, rfl⟩
  | cons c rest ih =>
    obtain ⟨hc, hrest⟩ := List.forall_mem_cons.mp hcs
    have hfigure : (c == '_') = false := beq_eq_false_iff_ne.mpr (ne_of_isDigit hc (by decide))
    obtain ⟨htake, hdrop⟩ := ih hrest
    simp only [List.takeWhile_cons, List.dropWhile_cons, hfigure, Bool.or_false, htake, hdrop,
      and_self]

omit hcs in
theorem length_filterMap_decimal? (h : ∀ c ∈ cs, (decimal? c).isSome = true) :
    (cs.filterMap decimal?).length = cs.length := by
  induction cs with
  | nil => rfl
  | cons c rest ih =>
    obtain ⟨hc, hrest⟩ := List.forall_mem_cons.mp h
    obtain ⟨d, hd⟩ := Option.isSome_iff_exists.mp hc
    rw [List.filterMap_cons_some hd, List.length_cons, List.length_cons, ih hrest]

/-- **A run of figures is read up to the first one without a value.** -/
theorem readInt_figures (hne : cs ≠ []) :
    readInt cs =
      let run := cs.takeWhile fun c => (decimal? c).isSome
      if digitLimit < run.length then .error (.tooLong run.length)
      else if run.length < cs.length then .error (.malformed cs)
      else .ok (value (cs.filterMap decimal?)) := by
  have hcut : cs.takeWhile (fun c => (decimal? c).isSome) ++
      cs.dropWhile (fun c => (decimal? c).isSome) = cs := List.takeWhile_append_dropWhile
  obtain ⟨htake, hdrop⟩ := cut_figures hcs
  unfold readInt
  rw [dropWhile_isBlank_of_isDigit hcs, splitSign_of_isDigit hcs]
  dsimp only
  rw [htake, hdrop]
  generalize hrun : cs.takeWhile (fun c => (decimal? c).isSome) = run at hcut ⊢
  generalize cs.dropWhile (fun c => (decimal? c).isSome) = rest at hcut ⊢
  have hvalues : ∀ c ∈ run, (decimal? c).isSome = true := fun c hc =>
    List.all_eq_true.mp (List.all_takeWhile (p := fun c => (decimal? c).isSome)) c (hrun ▸ hc)
  have hseparated : wellSeparated run = true :=
    wellSeparated_of_isDigit fun c hc => hcs c (hcut ▸ List.mem_append_left rest hc)
  rw [hseparated, length_filterMap_decimal? hvalues, if_neg (by decide)]
  by_cases hlong : digitLimit < run.length
  · rw [if_pos hlong, if_pos hlong]
  rw [if_neg hlong, if_neg hlong]
  cases rest with
  | nil =>
    rw [List.append_nil] at hcut
    subst hcut
    have hdigits : (run.filterMap decimal?).isEmpty = false := by
      rw [List.isEmpty_eq_false_iff, ← List.length_pos_iff, length_filterMap_decimal? hvalues,
        List.length_pos_iff]
      exact hne
    rw [hdigits, if_neg (by decide), if_neg (by decide), if_neg (Nat.lt_irrefl _)]
  | cons c more =>
    -- the figure without a value is no blank
    have hc : isBlank c = false :=
      not_isBlank_of_isDigit (hcs c (hcut ▸ List.mem_append_right run List.mem_cons_self))
    have hshorter : run.length < cs.length := by
      rw [← hcut, List.length_append, List.length_cons]
      omega
    rw [if_pos (by simp [hc]), if_pos hshorter]

/-- **Which runs of figures denote a number**: those in which every figure has a value and that are
    not too long. -/
theorem readInt_isOk_iff (hne : cs ≠ []) : (∃ v, readInt cs = .ok v) ↔
    (∀ c ∈ cs, (decimal? c).isSome = true) ∧ cs.length ≤ digitLimit := by
  rw [readInt_figures hcs hne, ← List.takeWhile_eq_self_iff]
  dsimp only
  constructor
  · rintro ⟨v, hv⟩
    split at hv
    · cases hv
    · rename_i hlong
      split at hv
      · cases hv
      · rename_i hshorter
        have hall := (List.takeWhile_prefix fun c => (decimal? c).isSome).eq_of_length_le
          (Nat.not_lt.mp hshorter)
        rw [hall] at hlong
        exact ⟨hall, Nat.not_lt.mp hlong⟩
  · rintro ⟨hall, hlength⟩
    rw [hall, if_neg (Nat.not_lt.mpr hlength), if_neg (Nat.lt_irrefl _)]
    exact ⟨_, rfl⟩

end Figures

/-! ## 2. The digits of a number -/

/-- A natural number is written with digits. -/
theorem isDigit_of_mem_repr {n : Nat} : ∀ c ∈ (Nat.repr n).toList, c.isDigit = true := by
  intro c hc
  rw [Nat.toList_repr] at hc
  exact Nat.isDigit_of_mem_toDigits (by decide) (by decide) hc

/-- A character that a number is written with has the value of its code point above zero's. -/
theorem decimal?_of_ascii {c : Char} (h : c.isDigit = true) :
    decimal? c = some (c.toNat - 48) := by
  unfold Char.isDigit at h
  rw [Bool.and_eq_true, decide_eq_true_eq, decide_eq_true_eq] at h
  have hlow : 48 ≤ c.toNat := h.1
  have hhigh : c.toNat ≤ 57 := h.2
  -- the run of the ASCII digits is the first one
  have hrun : decide (0x30 ≤ c.toNat ∧ c.toNat < 0x30 + 10) = true := by
    rw [decide_eq_true_eq]
    omega
  have hzeros : decimalZeros = 0x30 :: decimalZeros.tail := rfl
  unfold decimal? runOffset?
  rw [hzeros, List.find?_cons, hrun]
  rfl

/-- The ASCII digits denote the number that they are the digits of. -/
theorem value_ascii {cs : List Char} (hcs : ∀ c ∈ cs, c.isDigit = true) :
    value (cs.filterMap decimal?) = Nat.ofDigitChars 10 cs 0 := by
  have hmap : cs.filterMap decimal? = cs.map fun c => c.toNat - 48 := by
    induction cs with
    | nil => rfl
    | cons c rest ih =>
      obtain ⟨hc, hrest⟩ := List.forall_mem_cons.mp hcs
      rw [List.filterMap_cons_some (decimal?_of_ascii hc), ih hrest, List.map_cons]
  rw [hmap]
  unfold value Nat.ofDigitChars
  rw [List.foldl_map]
  rfl

/-- **A number is read back from its digits**, if there are not too many of them. -/
theorem readInt_repr {n : Nat} (h : (Nat.toDigits 10 n).length ≤ digitLimit) :
    readInt (Nat.repr n).toList = .ok n := by
  have hascii : ∀ c ∈ Nat.toDigits 10 n, c.isDigit = true := Nat.toList_repr ▸ isDigit_of_mem_repr
  have hvalue : ∀ c ∈ Nat.toDigits 10 n, (decimal? c).isSome = true := fun c hc => by
    rw [decimal?_of_ascii (hascii c hc)]
    rfl
  have hfigure : ∀ c ∈ Nat.toDigits 10 n, isDigit c = true := fun c hc =>
    Bool.or_eq_true_iff.mpr (.inl (hvalue c hc))
  rw [Nat.toList_repr, readInt_figures hfigure Nat.toDigits_ne_nil]
  dsimp only
  rw [List.takeWhile_eq_self_iff.mpr hvalue, if_neg (Nat.not_lt.mpr h), if_neg (Nat.lt_irrefl _),
    value_ascii hascii, Nat.ofDigitChars_ten_toDigits]

/-! ## 3. Texts of numbers -/

/-- **What the text of a number is made of**: it is not empty, and has digits and minus signs only. -/
structure IsDecimal (text : String) : Prop where
  nonempty : text ≠ ""
  chars : ∀ c ∈ text.toList, c.isDigit = true ∨ c = '-'

theorem IsDecimal.not_mem {text : String} (h : IsDecimal text) {c : Char}
    (hc : ¬ (c.isDigit = true ∨ c = '-')) : c ∉ text.toList := fun hmem => hc (h.chars c hmem)

theorem isDecimal_nat (n : Nat) : IsDecimal (Nat.repr n) :=
  ⟨Nat.repr_ne_empty, fun c hc => .inl (isDigit_of_mem_repr c hc)⟩

theorem toList_negSucc (n : Nat) :
    (toString (Int.negSucc n)).toList = '-' :: (Nat.repr (n + 1)).toList := String.toList_append

theorem isDecimal_int (n : Int) : IsDecimal (toString n) := by
  cases n with
  | ofNat m => exact isDecimal_nat m
  | negSucc m =>
    refine ⟨fun hempty => ?_, ?_⟩
    · rw [← String.toList_eq_nil_iff, toList_negSucc] at hempty
      cases hempty
    · rw [toList_negSucc]
      exact List.forall_mem_cons.mpr ⟨.inr rfl, (isDecimal_nat (m + 1)).chars⟩

theorem nat_text_inj {m n : Nat} : Nat.repr m = Nat.repr n ↔ m = n := by
  refine ⟨fun h => ?_, congrArg Nat.repr⟩
  have hdigits := congrArg (fun text => Nat.ofDigitChars 10 text.toList 0) h
  simpa only [Nat.toList_repr, Nat.ofDigitChars_ten_toDigits] using hdigits

/-- **Numbers are told apart by their texts.** -/
theorem int_text_inj {m n : Int} : toString m = toString n ↔ m = n := by
  refine ⟨fun h => ?_, congrArg toString⟩
  -- a natural number has no minus sign among its digits
  have hminus : ∀ {a b : Nat}, toString (Int.ofNat a) ≠ toString (Int.negSucc b) := by
    intro a b h
    have hlist : (Nat.repr a).toList = '-' :: (Nat.repr (b + 1)).toList :=
      (congrArg String.toList h).trans (toList_negSucc b)
    have hdigit := isDigit_of_mem_repr '-' (hlist ▸ List.mem_cons_self)
    exact absurd hdigit (by decide)
  cases m with
  | ofNat a =>
    cases n with
    | ofNat b => exact congrArg Int.ofNat (nat_text_inj.mp h)
    | negSucc b => exact absurd h hminus
  | negSucc a =>
    cases n with
    | ofNat b => exact absurd h.symm hminus
    | negSucc b =>
      have hlist := congrArg String.toList h
      rw [toList_negSucc, toList_negSucc] at hlist
      have hnext := nat_text_inj.mp (String.toList_inj.mp (List.cons.inj hlist).2)
      exact congrArg Int.negSucc (Nat.succ.inj hnext)

end CMinusMinus.Text
