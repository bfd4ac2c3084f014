import Mathlib.Algebra.Order.Floor.Ring
import Mathlib.Data.List.TakeWhile
import P42Prizes.ScoreText

/-! # Where the readers of score texts agree

`literalValue` is the number that a text stands for by the verifier's pattern.  The portal reads just
that.  The verifier refuses a numeral with more digits than `int` converts, and the agent takes off the
white space around a text and refuses a plus sign.  The three agree on a text exactly when none of these
differences decides (`Legible`).  On every number that they read, the atoms are the exact ceiling of the
scaled score, whichever of the three rounding rules is used. -/

namespace P42Prizes

open PatternClasses RegularExpression

/-! ### Rounding -/

/-- The atoms of a score in exact arithmetic. -/
def exactAtoms : Direction → ℚ → ℤ
  | .minimize, q => ⌈q * 10 ^ 18⌉
  | .maximize, q => -⌊q * 10 ^ 18⌋

theorem exactAtoms_maximize (q : ℚ) : exactAtoms .maximize q = exactAtoms .minimize (-q) := by
  rw [exactAtoms, exactAtoms, neg_mul, Int.ceil_neg]

theorem exactAtoms_mono {q r : ℚ} (h : q ≤ r) : exactAtoms .minimize q ≤ exactAtoms .minimize r :=
  Int.ceil_le_ceil (mul_le_mul_of_nonneg_right h (by positivity))

theorem exactAtoms_anti {q r : ℚ} (h : q ≤ r) : exactAtoms .maximize r ≤ exactAtoms .maximize q := by
  rw [exactAtoms_maximize, exactAtoms_maximize]
  exact exactAtoms_mono (neg_le_neg h)

/-- The verifier's rounding: a floor division of the negated numerator. -/
theorem neg_fdiv_eq (q : ℚ) : -(-(q.num * scoreScale)).fdiv q.den = exactAtoms .minimize q := by
  have hscaled : q * 10 ^ 18 = ((q.num * scoreScale : ℤ) : ℚ) / (q.den : ℕ) := by
    rw [Int.cast_mul, mul_div_right_comm, Rat.num_div_den, scoreScale]
    norm_num
  rw [exactAtoms, hscaled, Rat.ceil_intCast_div_natCast, Int.fdiv_eq_ediv_of_nonneg _ (Int.natCast_nonneg _)]

/-- The agent's rounding: a division that truncates, and one more for a positive number. -/
theorem tdiv_eq_neg_ediv {a d : ℤ} (hd : 0 < d) :
    (if a.tmod d ≠ 0 ∧ a > 0 then a.tdiv d + 1 else a.tdiv d) = -(-a / d) := by
  rcases le_or_gt a 0 with ha | ha
  · have hneg : a.tdiv d = -(-a / d) := by
      rw [← Int.tdiv_eq_ediv_of_nonneg (Int.neg_nonneg.mpr ha), Int.neg_tdiv, neg_neg]
    rw [if_neg (fun h => absurd h.2 ha.not_gt), hneg]
  · rw [Int.tdiv_eq_ediv_of_nonneg ha.le, Int.tmod_eq_emod_of_nonneg ha.le, Int.neg_ediv,
      Int.sign_eq_one_of_pos hd]
    by_cases hdvd : d ∣ a
    · rw [if_neg (fun h => h.1 (Int.emod_eq_zero_of_dvd hdvd)), if_pos hdvd]
      omega
    · rw [if_pos ⟨fun h => hdvd (Int.dvd_of_emod_eq_zero h), ha⟩, if_neg hdvd]
      omega

/-! ### The texts that the patterns match -/

theorem digits_eq : digits = ['0', '1', '2', '3', '4', '5', '6', '7', '8', '9'] := rfl

theorem mem_digits_iff {c : Char} : c ∈ digits ↔ c.isDigit = true := by
  constructor
  · intro h
    have hall : ∀ c ∈ digits, c.isDigit = true := by
      rw [digits_eq]
      simp only [List.forall_mem_cons]
      exact ⟨rfl, rfl, rfl, rfl, rfl, rfl, rfl, rfl, rfl, rfl, nofun⟩
    exact hall c h
  · intro h
    obtain ⟨hlow, hhigh⟩ : 48 ≤ c.toNat ∧ c.toNat ≤ 57 := Char.isDigit_iff_toNat.mp h
    have hall : ∀ n, 48 ≤ n → n ≤ 57 → Char.ofNat n ∈ digits := by decide +kernel
    rw [← Char.ofNat_toNat c]
    exact hall c.toNat hlow hhigh

/-- A numeral, with one of the signs or none. -/
theorem integerRe_rmatch_iff {signs x : Text} : (integerRe signs).rmatch x ↔
    ∃ sign ds : Text, x = sign ++ ds ∧ (sign = [] ∨ ∃ c ∈ signs, sign = [c]) ∧
      ds ≠ [] ∧ ∀ c ∈ ds, c ∈ digits := by
  rw [integerRe, mul_rmatch_iff]
  simp only [optional_rmatch_iff, oneOf_rmatch_iff, oneOrMore_oneOf_rmatch_iff]

theorem rationalRe_rmatch_iff {signs x : Text} : (rationalRe signs).rmatch x ↔
    (integerRe signs).rmatch x ∨
      ∃ num den, x = num ++ '/' :: den ∧ (integerRe signs).rmatch num ∧ (integerRe signs).rmatch den := by
  rw [rationalRe, mul_rmatch_iff]
  simp only [optional_rmatch_iff, mul_rmatch_iff, char_rmatch_iff]
  constructor
  · rintro ⟨num, rest, rfl, hnum, rfl | ⟨_, den, rfl, rfl, hden⟩⟩
    · exact .inl (by rwa [List.append_nil])
    · exact .inr ⟨num, den, rfl, hnum, hden⟩
  · rintro (hx | ⟨num, den, rfl, hnum, hden⟩)
    · exact ⟨x, [], (List.append_nil x).symm, hx, .inl rfl⟩
    · exact ⟨num, '/' :: den, rfl, hnum, .inr ⟨['/'], den, rfl, rfl, hden⟩⟩

/-- What a numeral is made of. -/
theorem mem_of_integerRe {signs x : Text} (h : (integerRe signs).rmatch x) :
    ∀ c ∈ x, c ∈ signs ∨ c ∈ digits := by
  obtain ⟨sign, ds, rfl, hsign, -, hds⟩ := integerRe_rmatch_iff.mp h
  intro c hc
  rcases List.mem_append.mp hc with hc | hc
  · obtain rfl | ⟨d, hd, rfl⟩ := hsign
    · exact absurd hc List.not_mem_nil
    · exact .inl (List.mem_singleton.mp hc ▸ hd)
  · exact .inr (hds c hc)

theorem mem_of_rationalRe {signs x : Text} (h : (rationalRe signs).rmatch x) :
    ∀ c ∈ x, c ∈ signs ∨ c ∈ digits ∨ c = '/' := by
  intro c hc
  rcases rationalRe_rmatch_iff.mp h with hx | ⟨num, den, rfl, hnum, hden⟩
  · exact (mem_of_integerRe hx c hc).imp_right .inl
  · rcases List.mem_append.mp hc with hc | hc
    · exact (mem_of_integerRe hnum c hc).imp_right .inl
    · obtain rfl | hc := List.mem_cons.mp hc
      · exact .inr (.inr rfl)
      · exact (mem_of_integerRe hden c hc).imp_right .inl

/-- Without the plus sign the two patterns are the same. -/
theorem integerRe_minus_iff {x : Text} :
    (integerRe ['-']).rmatch x ↔ (integerRe ['+', '-']).rmatch x ∧ '+' ∉ x := by
  constructor
  · intro h
    refine ⟨?_, fun hplus => ?_⟩
    · obtain ⟨sign, ds, rfl, hsign, hds⟩ := integerRe_rmatch_iff.mp h
      refine integerRe_rmatch_iff.mpr ⟨sign, ds, rfl, hsign.imp_right ?_, hds⟩
      exact fun ⟨c, hc, hsign⟩ => ⟨c, List.mem_cons_of_mem _ hc, hsign⟩
    · exact absurd (mem_of_integerRe h '+' hplus) (by decide)
  · rintro ⟨h, hplus⟩
    obtain ⟨sign, ds, rfl, hsign, hds⟩ := integerRe_rmatch_iff.mp h
    refine integerRe_rmatch_iff.mpr ⟨sign, ds, rfl, hsign.imp_right ?_, hds⟩
    rintro ⟨c, hc, rfl⟩
    obtain rfl | hc := List.mem_cons.mp hc
    · exact absurd List.mem_cons_self hplus
    · exact ⟨c, hc, rfl⟩

theorem rationalRe_minus_iff {x : Text} :
    (rationalRe ['-']).rmatch x ↔ (rationalRe ['+', '-']).rmatch x ∧ '+' ∉ x := by
  simp only [rationalRe_rmatch_iff, integerRe_minus_iff]
  constructor
  · rintro (⟨hx, hplus⟩ | ⟨num, den, rfl, ⟨hnum, hplus⟩, hden, hplus'⟩)
    · exact ⟨.inl hx, hplus⟩
    · refine ⟨.inr ⟨num, den, rfl, hnum, hden⟩, ?_⟩
      simp [hplus, hplus']
  · rintro ⟨hx | ⟨num, den, rfl, hnum, hden⟩, hplus⟩
    · exact .inl ⟨hx, hplus⟩
    · rw [List.mem_append, List.mem_cons, not_or, not_or] at hplus
      exact .inr ⟨num, den, rfl, ⟨hnum, hplus.1⟩, hden, hplus.2.2⟩

/-! ### Numerals written in decimal -/

theorem unsigned_of_digits {ds : Text} (h : ∀ c ∈ ds, c ∈ digits) : unsigned ds = ds := by
  cases ds with
  | nil => rfl
  | cons c ds =>
      have hc := h c List.mem_cons_self
      unfold unsigned
      split
      · next heq => exact absurd ((List.cons.inj heq).1 ▸ hc) (by decide)
      · next heq => exact absurd ((List.cons.inj heq).1 ▸ hc) (by decide)
      · rfl

theorem toDigits_mem_digits {n : ℕ} {c : Char} (h : c ∈ Nat.toDigits 10 n) : c ∈ digits :=
  mem_digits_iff.mpr (Nat.isDigit_of_mem_toDigits (by decide) (by decide) h)

theorem toDigits_head {n : ℕ} : (Nat.toDigits 10 n).head? ≠ some '-' := by
  intro h
  exact absurd (toDigits_mem_digits (List.mem_of_head? h)) (by decide)

theorem bigInt_decimalText (n : ℤ) : bigInt (decimalText n) = n := by
  have hdigits : unsigned (Nat.toDigits 10 n.natAbs) = Nat.toDigits 10 n.natAbs :=
    unsigned_of_digits fun _ => toDigits_mem_digits
  unfold decimalText
  split
  · next hneg =>
      rw [bigInt, List.head?_cons, if_pos rfl, unsigned, Nat.ofDigitChars_ten_toDigits]
      omega
  · next hneg =>
      rw [bigInt, if_neg toDigits_head, hdigits, Nat.ofDigitChars_ten_toDigits]
      omega

theorem integerRe_decimalText (n : ℤ) : (integerRe ['-']).rmatch (decimalText n) := by
  have hds : ∀ c ∈ Nat.toDigits 10 n.natAbs, c ∈ digits := fun _ => toDigits_mem_digits
  have hne : Nat.toDigits 10 n.natAbs ≠ [] := Nat.toDigits_ne_nil
  refine integerRe_rmatch_iff.mpr ?_
  unfold decimalText
  split
  · exact ⟨['-'], _, rfl, .inr ⟨'-', List.mem_cons_self, rfl⟩, hne, hds⟩
  · exact ⟨[], _, rfl, .inl rfl, hne, hds⟩

/-! ### The pieces of a text -/

theorem splitSlash_of_notMem {x : Text} (h : '/' ∉ x) : splitSlash x = (x, none) := by
  have hall : ∀ c ∈ x, decide (c ≠ '/') = true :=
    fun c hc => decide_eq_true (ne_of_mem_of_not_mem hc h)
  have hdrop : x.dropWhile (· ≠ '/') = [] := List.dropWhile_eq_nil_iff.mpr hall
  rw [splitSlash, hdrop]

theorem splitSlash_slash {num den : Text} (h : '/' ∉ num) :
    splitSlash (num ++ '/' :: den) = (num, some den) := by
  have hall : ∀ c ∈ num, decide (c ≠ '/') = true :=
    fun c hc => decide_eq_true (ne_of_mem_of_not_mem hc h)
  have hdrop : (num ++ '/' :: den).dropWhile (· ≠ '/') = '/' :: den := by
    rw [List.dropWhile_append_of_pos hall]
    rfl
  have htake : (num ++ '/' :: den).takeWhile (· ≠ '/') = num := by
    rw [List.takeWhile_append_of_pos hall]
    exact List.append_nil num
  rw [splitSlash, hdrop, htake]

theorem slash_notMem {x : Text} (h : (integerRe ['-']).rmatch x) : '/' ∉ x := fun hc =>
  absurd (mem_of_integerRe h '/' hc) (by decide)

/-- The denominator's text, which is `1` where it is left out. -/
def denominatorText (x : Text) : Text := (splitSlash x).2.getD ['1']

/-- The number that a text stands for, where it stands for one. -/
def literalValue (x : Text) : Option ℚ :=
  if (rationalRe ['+', '-']).rmatch x ∧ bigInt (denominatorText x) ≠ 0 then
    some (bigInt (splitSlash x).1 / bigInt (denominatorText x))
  else none

/-! ### What each reader reads -/

/-- `int` converts both numerals. -/
def Short (x : Text) : Prop :=
  (unsigned (splitSlash x).1).length ≤ Verdict.intMaxStrDigits ∧
    (unsigned (denominatorText x)).length ≤ Verdict.intMaxStrDigits

instance (x : Text) : Decidable (Short x) := inferInstanceAs (Decidable (_ ∧ _))

theorem verdict_parseRational (x : Text) :
    (Verdict.parseRational (.text x)).toOption = if Short x then literalValue x else none := by
  have hone : bigInt ['1'] = 1 := rfl
  have hshort : (unsigned ['1']).length ≤ Verdict.intMaxStrDigits := by decide
  cases hsplit : splitSlash x with
  | mk num rest =>
      simp only [Verdict.parseRational, Verdict.RATIONAL_RE, literalValue, Short, denominatorText, hsplit,
        Verdict.int]
      by_cases hre : (rationalRe ['+', '-']).rmatch x = true
      · by_cases hnum : (unsigned num).length ≤ Verdict.intMaxStrDigits
        · cases rest with
          | none => simp [hre, hnum, hone, hshort, bind, Except.bind, pure, Except.pure, Except.toOption]
          | some den =>
              by_cases hden : (unsigned den).length ≤ Verdict.intMaxStrDigits
              · by_cases hzero : bigInt den = 0
                · simp [hre, hden, hzero, bind, Except.bind, Except.toOption]
                · simp [hre, hnum, hden, hzero, bind, Except.bind, pure, Except.pure, Except.toOption]
              · simp [hre, hden, bind, Except.bind, Except.toOption]
        · cases rest with
          | none => simp [hre, hnum, bind, Except.bind, Except.toOption]
          | some den =>
              by_cases hden : (unsigned den).length ≤ Verdict.intMaxStrDigits
              · by_cases hzero : bigInt den = 0
                · simp [hre, hden, hzero, bind, Except.bind, Except.toOption]
                · simp [hre, hnum, hden, hzero, bind, Except.bind, Except.toOption]
              · simp [hre, hden, bind, Except.bind, Except.toOption]
      · simp [hre, Except.toOption]

theorem gcdLoop_eq (x y : ℕ) : Exact.gcdLoop x y = x.gcd y := by
  induction x, y using Exact.gcdLoop.induct with
  | case1 x => rw [Exact.gcdLoop, Nat.gcd_zero_right]
  | case2 x y ih => rw [Exact.gcdLoop, ih, Nat.gcd_comm (y + 1), ← Nat.gcd_rec, Nat.gcd_comm]

theorem exact_rational (num : ℤ) {den : ℤ} (h : den ≠ 0) :
    ∃ r, Exact.rational num den = .ok r ∧ r.value = num / den := by
  have hvalue : ∀ n d : ℤ, d ≠ 0 →
      (⟨n.tdiv (Exact.gcd n d), d.tdiv (Exact.gcd n d)⟩ : Rational).value = n / d := by
    intro n d hd
    have hgcd : Exact.gcd n d = Int.gcd n d := by
      rw [Exact.gcd, gcdLoop_eq, if_neg (Nat.gcd_ne_zero_right (Int.natAbs_ne_zero.mpr hd)), Int.gcd]
    have hpos : ((Int.gcd n d : ℤ) : ℚ) ≠ 0 :=
      Int.cast_ne_zero.mpr (Int.natCast_ne_zero.mpr (Int.gcd_ne_zero_right hd))
    rw [hgcd, Rational.value, Int.tdiv_eq_ediv_of_dvd (Int.gcd_dvd_left ..),
      Int.tdiv_eq_ediv_of_dvd (Int.gcd_dvd_right ..), Int.cast_div (Int.gcd_dvd_left ..) hpos,
      Int.cast_div (Int.gcd_dvd_right ..) hpos, div_div_div_cancel_right₀ hpos]
  rw [Exact.rational, if_neg h]
  by_cases hneg : den < 0
  · refine ⟨_, by rw [if_pos hneg], (hvalue _ _ (Int.neg_ne_zero.mpr h)).trans ?_⟩
    rw [Int.cast_neg, Int.cast_neg, neg_div_neg_eq]
  · exact ⟨_, by rw [if_neg hneg], hvalue _ _ h⟩

theorem exact_parseRational (x : Text) :
    (Exact.parseRational x).toOption.map Rational.value = literalValue x := by
  cases hsplit : splitSlash x with
  | mk num rest =>
      simp only [Exact.parseRational, Exact.RATIONAL_PATTERN, literalValue, denominatorText, hsplit]
      by_cases hre : (rationalRe ['+', '-']).rmatch x = true
      · by_cases hzero : bigInt (rest.getD ['1']) = 0
        · simp [hre, hzero, Exact.rational, Except.toOption]
        · obtain ⟨r, hr, hvalue⟩ := exact_rational (bigInt num) hzero
          simp [hre, hzero, hr, hvalue, Except.toOption]
      · simp [hre, Except.toOption]

/-- What the agent reads. -/
theorem agent_parseRational (x : Text) : (Agent.parseRational x).toOption.map Rational.value =
    if '+' ∈ Agent.trim x then none else literalValue (Agent.trim x) := by
  cases hsplit : splitSlash (Agent.trim x) with
  | mk num rest =>
      simp only [Agent.parseRational, Agent.RATIONAL_RE, literalValue, denominatorText, hsplit]
      generalize Agent.trim x = y
      by_cases hre : (rationalRe ['-']).rmatch y = true
      · obtain ⟨hre', hplus⟩ := rationalRe_minus_iff.mp hre
        by_cases hzero : bigInt (rest.getD ['1']) = 0
        · simp [hre, hplus, hzero, Except.toOption]
        · by_cases hneg : bigInt (rest.getD ['1']) < 0
          · simp [hre, hre', hplus, hzero, hneg, Except.toOption, Rational.value, neg_div_neg_eq]
          · simp [hre, hre', hplus, hzero, hneg, Except.toOption, Rational.value]
      · have hnone : ¬ ((rationalRe ['+', '-']).rmatch y = true ∧ '+' ∉ y) :=
          fun h => hre (rationalRe_minus_iff.mpr h)
        by_cases hplus : '+' ∈ y
        · simp [hre, hplus, Except.toOption]
        · have hre' : ¬ (rationalRe ['+', '-']).rmatch y = true := fun h => hnone ⟨h, hplus⟩
          simp [hre, hre', Except.toOption]

theorem agent_den_pos {x : Text} {r : Rational} (h : Agent.parseRational x = .ok r) : 0 < r.den := by
  simp only [Agent.parseRational] at h
  split at h
  · split at h
    · cases h
    · split at h
      · next hneg =>
          obtain rfl := Except.ok.inj h
          exact Int.neg_pos_of_neg hneg
      · next hzero hneg =>
          obtain rfl := Except.ok.inj h
          exact lt_of_le_of_ne (not_lt.mp hneg) (Ne.symm hzero)
  · cases h

/-! ### White space -/

theorem not_isWhiteSpace {c : Char} (h : c ∈ ['+', '-'] ∨ c ∈ digits ∨ c = '/') :
    Agent.isWhiteSpace c = false := by
  have hsigns : ∀ c ∈ ['+', '-'], Agent.isWhiteSpace c = false := by
    simp only [List.forall_mem_cons]
    exact ⟨rfl, rfl, nofun⟩
  have hdigits : ∀ c ∈ digits, Agent.isWhiteSpace c = false := by
    rw [digits_eq]
    simp only [List.forall_mem_cons]
    exact ⟨rfl, rfl, rfl, rfl, rfl, rfl, rfl, rfl, rfl, rfl, nofun⟩
  rcases h with h | h | rfl
  · exact hsigns c h
  · exact hdigits c h
  · decide

theorem dropWhile_eq_self {p : Char → Bool} {x : Text} (h : ∀ c ∈ x, p c = false) :
    x.dropWhile p = x := by
  cases x with
  | nil => rfl
  | cons c x => rw [List.dropWhile_cons_of_neg (by simp [h c List.mem_cons_self])]

/-- Nothing is taken off a text that a pattern matches. -/
theorem trim_of_rmatch {x : Text} (h : (rationalRe ['+', '-']).rmatch x) : Agent.trim x = x := by
  have hnone : ∀ c ∈ x, Agent.isWhiteSpace c = false :=
    fun c hc => not_isWhiteSpace (mem_of_rationalRe h c hc)
  rw [Agent.trim, dropWhile_eq_self hnone, dropWhile_eq_self, List.reverse_reverse]
  exact fun c hc => hnone c (List.mem_reverse.mp hc)

theorem literalValue_of_trim_ne {x : Text} (h : Agent.trim x ≠ x) : literalValue x = none :=
  if_neg fun hre => h (trim_of_rmatch hre.1)

/-! ### Atoms -/

theorem verdict_chainScoreAtoms (value : Verdict.Value) (direction : Direction) :
    (Verdict.chainScoreAtoms value direction).toOption =
      (Verdict.parseRational value).toOption.map (exactAtoms direction) := by
  unfold Verdict.chainScoreAtoms
  cases Verdict.parseRational value with
  | error e => rfl
  | ok q =>
      cases direction with
      | minimize => exact congrArg some (neg_fdiv_eq q)
      | maximize => exact congrArg some ((neg_fdiv_eq (-q)).trans (exactAtoms_maximize q).symm)

theorem verdict_atomsFromScore (value : Verdict.Value) :
    (Verdict.atomsFromScore value).toOption =
      (Verdict.parseRational value).toOption.map (exactAtoms .minimize) := by
  unfold Verdict.atomsFromScore
  cases Verdict.parseRational value with
  | error e => rfl
  | ok q => exact congrArg some (neg_fdiv_eq q)

theorem runner_chainScoreAtoms (score : Verdict.Value) (direction : Direction) :
    (Runner.chainScoreAtoms score direction).toOption =
      (Verdict.parseRational score).toOption.map (exactAtoms direction) := by
  unfold Runner.chainScoreAtoms
  cases Verdict.parseRational score with
  | error e => rfl
  | ok q =>
      cases direction with
      | minimize => exact congrArg some (neg_fdiv_eq q)
      | maximize => exact congrArg some ((neg_fdiv_eq (-q)).trans (exactAtoms_maximize q).symm)

/-- The agent rounds the score itself. -/
theorem ceil_value {num den : ℤ} (hden : 0 < den) :
    (if (num * scoreScale).tmod den ≠ 0 ∧ num * scoreScale > 0 then (num * scoreScale).tdiv den + 1
      else (num * scoreScale).tdiv den) = exactAtoms .minimize (Rational.value ⟨num, den⟩) := by
  obtain ⟨d, rfl⟩ := Int.eq_ofNat_of_zero_le hden.le
  have hscaled : Rational.value ⟨num, d⟩ * 10 ^ 18 = ((num * scoreScale : ℤ) : ℚ) / (d : ℕ) := by
    rw [Rational.value, Int.cast_mul, mul_div_right_comm, Int.cast_natCast, scoreScale]
    norm_num
  rw [tdiv_eq_neg_ediv hden, exactAtoms, hscaled, Rat.ceil_intCast_div_natCast]

theorem agent_atomsFromScore (score : Text) : (Agent.atomsFromScore score).toOption =
    ((Agent.parseRational score).toOption.map Rational.value).map (exactAtoms .minimize) := by
  unfold Agent.atomsFromScore
  cases h : Agent.parseRational score with
  | error e => rfl
  | ok r => exact congrArg some (ceil_value (agent_den_pos h))

/-- The text that the agent writes for the negated score is read as that score. -/
theorem agent_parseRational_rendered (num : ℤ) {den : ℤ} (hden : 0 < den) :
    Agent.parseRational (decimalText num ++ '/' :: decimalText den) = .ok ⟨num, den⟩ := by
  have hnum := integerRe_decimalText num
  have hre : (rationalRe ['-']).rmatch (decimalText num ++ '/' :: decimalText den) :=
    rationalRe_rmatch_iff.mpr (.inr ⟨_, _, rfl, hnum, integerRe_decimalText den⟩)
  have htrim := trim_of_rmatch (rationalRe_minus_iff.mp hre).1
  have hzero : ¬ den = 0 := hden.ne'
  simp only [Agent.parseRational, Agent.RATIONAL_RE, htrim]
  rw [if_pos hre, splitSlash_slash (slash_notMem hnum), Option.getD_some, bigInt_decimalText,
    bigInt_decimalText]
  rw [if_neg hzero, if_neg hden.not_gt]

theorem agent_chainScoreAtoms (score : Text) (direction : Direction) :
    (Agent.chainScoreAtoms score direction).toOption =
      ((Agent.parseRational score).toOption.map Rational.value).map (exactAtoms direction) := by
  cases direction with
  | minimize => exact agent_atomsFromScore score
  | maximize =>
      rw [Agent.chainScoreAtoms]
      cases h : Agent.parseRational score with
      | error e => rfl
      | ok r =>
          have hden := agent_den_pos h
          have hatoms := agent_atomsFromScore (decimalText (-r.num) ++ '/' :: decimalText r.den)
          rw [agent_parseRational_rendered _ hden] at hatoms
          refine hatoms.trans (congrArg some ?_)
          rw [exactAtoms_maximize]
          congr 1
          rw [Rational.value, Rational.value, Int.cast_neg, neg_div]

/-! ### Agreement -/

/-- Every reader makes the same of a text: nothing, or the number `q` and its atoms. -/
structure ReadAs (s : Text) (q : Option ℚ) : Prop where
  verdict : (Verdict.parseRational (.text s)).toOption = q
  agent : (Agent.parseRational s).toOption.map Rational.value = q
  portal : (Exact.parseRational s).toOption.map Rational.value = q
  verdictAtoms : (Verdict.atomsFromScore (.text s)).toOption = q.map (exactAtoms .minimize)
  agentAtoms : (Agent.atomsFromScore s).toOption = q.map (exactAtoms .minimize)
  verdictChain : ∀ direction, (Verdict.chainScoreAtoms (.text s) direction).toOption =
    q.map (exactAtoms direction)
  runnerChain : ∀ direction, (Runner.chainScoreAtoms (.text s) direction).toOption =
    q.map (exactAtoms direction)
  agentChain : ∀ direction, (Agent.chainScoreAtoms s direction).toOption = q.map (exactAtoms direction)

/-- The text is no literal with a denominator other than zero, whatever surrounds it; or it is one that
no white space surrounds, without a plus sign and with numerals that are short enough; or it is refused
everywhere, for the white space or for a plus sign. -/
def Legible (s : Text) : Prop :=
  literalValue (Agent.trim s) = none ∨
    (Agent.trim s = s ∧ '+' ∉ s ∧ Short s) ∨ (Agent.trim s ≠ s ∧ '+' ∈ Agent.trim s)

theorem readAs_iff {s : Text} {q : Option ℚ} : ReadAs s q ↔
    (if Short s then literalValue s else none) = q ∧
      (if '+' ∈ Agent.trim s then none else literalValue (Agent.trim s)) = q ∧ literalValue s = q := by
  rw [← verdict_parseRational, ← agent_parseRational, ← exact_parseRational]
  constructor
  · exact fun h => ⟨h.verdict, h.agent, h.portal⟩
  · rintro ⟨hverdict, hagent, hportal⟩
    exact {
      verdict := hverdict
      agent := hagent
      portal := hportal
      verdictAtoms := hverdict ▸ verdict_atomsFromScore _
      agentAtoms := hagent ▸ agent_atomsFromScore _
      verdictChain := fun direction => hverdict ▸ verdict_chainScoreAtoms _ direction
      runnerChain := fun direction => hverdict ▸ runner_chainScoreAtoms _ direction
      agentChain := fun direction => hagent ▸ agent_chainScoreAtoms _ direction }

/-- The readers agree on the legible texts and on no others; the atoms grow with the score when it is
minimized and fall when it is maximized, so that atoms differ only the way the scores do. -/
theorem scoreTexts_agree (s : Text) :
    ((∃ q, ReadAs s q) ↔ Legible s) ∧
    (∀ q r : ℚ, q ≤ r → exactAtoms .minimize q ≤ exactAtoms .minimize r) ∧
    (∀ q r : ℚ, q ≤ r → exactAtoms .maximize r ≤ exactAtoms .maximize q) ∧
    (∀ q r : ℚ, exactAtoms .minimize q < exactAtoms .minimize r → q < r) ∧
    (∀ q r : ℚ, exactAtoms .maximize q < exactAtoms .maximize r → r < q) := by
  refine ⟨?_, fun q r => exactAtoms_mono, fun q r => exactAtoms_anti,
    fun q r hlt => lt_of_not_ge fun hle => hlt.not_ge (exactAtoms_mono hle),
    fun q r hlt => lt_of_not_ge fun hle => hlt.not_ge (exactAtoms_anti hle)⟩
  simp only [readAs_iff, Legible]
  by_cases htrim : Agent.trim s = s
  · rw [htrim]
    cases hvalue : literalValue s with
    | none => simp
    | some q =>
        by_cases hplus : '+' ∈ s
        · simp [hplus]
        · by_cases hshort : Short s
          · simp [hplus, hshort]
          · simp [hplus, hshort]
  · rw [literalValue_of_trim_ne htrim]
    cases hvalue : literalValue (Agent.trim s) with
    | none => simp
    | some q =>
        by_cases hplus : '+' ∈ Agent.trim s
        · simp [htrim, hplus]
        · simp [htrim, hplus]

/-- The agent refuses a plus sign that the verifier reads. -/
theorem scoreTexts_plus : ¬ ∀ s : Text, ∃ q, ReadAs s q := by
  intro h
  obtain ⟨q, hq⟩ := h "+1".toList
  have hverdict : (Verdict.parseRational (.text "+1".toList)).toOption = some 1 := by decide +kernel
  have hagent : (Agent.parseRational "+1".toList).toOption = none := by decide +kernel
  have heq := hq.verdict.symm.trans hverdict
  have hnone := hq.agent
  rw [hagent, heq] at hnone
  cases hnone

end P42Prizes
