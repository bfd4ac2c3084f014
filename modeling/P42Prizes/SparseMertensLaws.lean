import Mathlib.Algebra.BigOperators.GroupWithZero.Action
import Mathlib.Tactic.FieldSimp
import Mathlib.Tactic.Linarith
import P42Prizes.SparseMertens

/-! # What the sparse Mertens verifier accepts

The running total over the buckets is the floor sum, so the integer that a row is compared by is the sum of
the row times the common denominator.  The loop ends without raising just when every row is at most
10001/10000, and then holds the first row with the largest sum.  What may still raise is the conversion
of the two integers of the result to decimal: `str` refuses more than 4300 digits, and the common
denominator of the keys can have more. -/

namespace P42Prizes.SparseMertens

open Reverting Verifier FloorSums

variable {support : List (ℕ × ℤ)} {d : ℕ} {x : ℕ}

/-! ### Rows -/

/-- The value at 1. -/
def valueAtOne (support : List (ℕ × ℤ)) (d : ℕ) : ℚ := -(support.map fun e => (e.2 : ℚ) / d / e.1).sum

/-- The sum of `f(k) * ⌊x / k⌋` over all `k` from 1 on. -/
def rowSum (support : List (ℕ × ℤ)) (d x : ℕ) : ℚ :=
  valueAtOne support d * x + (support.map fun e => (e.2 : ℚ) / d * ((x / e.1 : ℕ) : ℚ)).sum

/-- The common denominator of the rows. -/
def commonDenominator (support : List (ℕ × ℤ)) (d : ℕ) : ℕ := d * (weight support).den

/-- The integer that a row is compared by. -/
def rowNumerator (support : List (ℕ × ℤ)) (x : ℕ) : ℤ :=
  floorSum support x * (weight support).den - x * (weight support).num

theorem commonDenominator_pos (hd : 0 < d) : 0 < commonDenominator support d :=
  Nat.mul_pos hd (weight support).den_pos

/-- All rows over the common denominator. -/
theorem rowSum_mul (hd : 0 < d) (x : ℕ) :
    rowSum support d x * commonDenominator support d = rowNumerator support x := by
  have hd' : (d : ℚ) ≠ 0 := Nat.cast_ne_zero.mpr hd.ne'
  have hone : valueAtOne support d = -(weight support * (1 / d)) := by
    rw [valueAtOne, weight, ← List.sum_map_mul_right]
    congr 3
    funext e
    ring
  have hfloor : (support.map fun e => (e.2 : ℚ) / d * ((x / e.1 : ℕ) : ℚ)).sum =
      floorSum support x * (1 / d) := by
    rw [floorSum, Int.cast_list_sum, List.map_map, ← List.sum_map_mul_right]
    congr 2
    funext e
    rw [Function.comp_apply, Int.cast_mul, Int.cast_natCast]
    ring
  have hweight : weight support * (weight support).den = (weight support).num := Rat.mul_den_eq_num _
  rw [rowSum, hone, hfloor, commonDenominator, rowNumerator]
  push_cast
  rw [← hweight]
  field_simp
  ring

/-- The comparison of a row with the bound. -/
theorem violation_iff (hd : 0 < d) (x : ℕ) :
    rowNumerator support x * tau.den > tau.num * d * (weight support).den ↔ tau < rowSum support d x := by
  have hpos : (0 : ℚ) < commonDenominator support d := Nat.cast_pos.mpr (commonDenominator_pos hd)
  have hnum : tau.num = 10001 := by norm_num [tau]
  have hden : tau.den = 10000 := by norm_num [tau]
  have hscaled : rowSum support d x * commonDenominator support d = rowNumerator support x := rowSum_mul hd x
  rw [← mul_lt_mul_iff_left₀ hpos, hscaled, hnum, hden, commonDenominator, tau, gt_iff_lt,
    ← @Int.cast_lt ℚ]
  push_cast
  constructor
  · intro h
    linarith
  · intro h
    linarith

/-! ### The loop over the rows -/

/-- The variables after the first `n` rows. -/
structure RowsAt (support : List (ℕ × ℤ)) (n : ℕ) (rows : Rows) : Prop where
  floor : rows.runningFloorSum = floorSum support n
  start : n = 0 → rows.maxNumerator = none
  found : 0 < n → rows.maxNumerator = some (rowNumerator support rows.maxX) ∧ 1 ≤ rows.maxX ∧ rows.maxX ≤ n
  max : ∀ y, 1 ≤ y → y ≤ n → rowNumerator support y ≤ rowNumerator support rows.maxX
  first : ∀ y, 1 ≤ y → y < rows.maxX → rowNumerator support y < rowNumerator support rows.maxX

theorem rowsAt_zero : RowsAt support 0 {} where
  floor := floorSum_zero.symm
  start _ := rfl
  found h := absurd h (lt_irrefl 0)
  max y h h' := absurd (h.trans h') (by decide)
  first y _ h := absurd h (Nat.not_lt_zero y)

/-- A row that is the first one, or larger than all before it. -/
theorem rowsAt_improved {n : ℕ}
    (hlarge : ∀ y, 1 ≤ y → y ≤ n → rowNumerator support y < rowNumerator support (n + 1)) :
    RowsAt support (n + 1) ⟨floorSum support (n + 1), some (rowNumerator support (n + 1)), n + 1⟩ where
  floor := rfl
  start h' := absurd h' (Nat.succ_ne_zero n)
  found _ := ⟨rfl, Nat.succ_pos n, le_rfl⟩
  max y hy hle := by
    rcases Nat.lt_or_eq_of_le hle with hlt | rfl
    · exact (hlarge y hy (Nat.lt_succ_iff.mp hlt)).le
    · exact le_rfl
  first y hy hlt := hlarge y hy (Nat.lt_succ_iff.mp hlt)

/-- A row that is not larger than the largest one so far. -/
theorem RowsAt.kept {n : ℕ} {rows : Rows} (h : RowsAt support n rows) (hn : 0 < n)
    (hle : rowNumerator support (n + 1) ≤ rowNumerator support rows.maxX) :
    RowsAt support (n + 1)
      ⟨floorSum support (n + 1), some (rowNumerator support rows.maxX), rows.maxX⟩ where
  floor := rfl
  start h' := absurd h' (Nat.succ_ne_zero n)
  found _ := ⟨rfl, (h.found hn).2.1, (h.found hn).2.2.trans (Nat.le_succ n)⟩
  max y hy hy' := by
    rcases Nat.lt_or_eq_of_le hy' with hlt | rfl
    · exact h.max y hy (Nat.lt_succ_iff.mp hlt)
    · exact hle
  first := h.first

theorem checkRow_spec {n : ℕ} {rows : Rows} (hd : 0 < d) (hkeys : ∀ e ∈ support, 0 < e.1)
    (hn : n + 1 ≤ domainMax) (h : RowsAt support n rows) :
    ∃ rows', RowsAt support (n + 1) rows' ∧
      ∀ r, checkRow support d rows (n + 1) = .ok r ↔ rowSum support d (n + 1) ≤ tau ∧ rows' = r := by
  have hfloor : rows.runningFloorSum + (buckets domainMax support).getD (n + 1) 0 =
      floorSum support (n + 1) := by
    rw [h.floor, getD_buckets hkeys (Nat.succ_pos n) hn, floorSum_succ]
  have hnumerator : floorSum support (n + 1) * (weight support).den - ((n + 1 : ℕ) : ℤ) * (weight support).num =
      rowNumerator support (n + 1) := rfl
  cases hmax : rows.maxNumerator with
  | none =>
      have hzero : n = 0 := by
        by_contra hne
        have hfound := (h.found (Nat.pos_of_ne_zero hne)).1
        rw [hmax] at hfound
        cases hfound
      refine ⟨_, rowsAt_improved fun y hy hle => absurd (hy.trans hle) (by omega), fun r => ?_⟩
      simp only [checkRow, hfloor, hnumerator, hmax, bind_eq_ok, revertIf_eq_ok, pure_eq_ok, exists_const,
        violation_iff hd, not_lt]
  | some maxNumerator =>
      have hpos : 0 < n := by
        by_contra hne
        have hstart := h.start (Nat.eq_zero_of_not_pos hne)
        rw [hmax] at hstart
        cases hstart
      obtain rfl : maxNumerator = rowNumerator support rows.maxX :=
        Option.some.inj (hmax.symm.trans (h.found hpos).1)
      by_cases hgt : rowNumerator support (n + 1) > rowNumerator support rows.maxX
      · refine ⟨_, rowsAt_improved fun y hy hle => (h.max y hy hle).trans_lt hgt, fun r => ?_⟩
        simp only [checkRow, hfloor, hnumerator, hmax, if_pos hgt, bind_eq_ok, revertIf_eq_ok, pure_eq_ok,
          exists_const, violation_iff hd, not_lt]
      · refine ⟨_, h.kept hpos (not_lt.mp hgt), fun r => ?_⟩
        simp only [checkRow, hfloor, hnumerator, hmax, if_neg hgt, bind_eq_ok, revertIf_eq_ok, pure_eq_ok,
          exists_const, violation_iff hd, not_lt]

theorem rows_spec (hd : 0 < d) (hkeys : ∀ e ∈ support, 0 < e.1) {n : ℕ} (hn : n ≤ domainMax) :
    ∃ rows, RowsAt support n rows ∧
      ∀ r, (List.range' 1 n).foldlM (checkRow support d) {} = .ok r ↔
        (∀ y, 1 ≤ y → y ≤ n → rowSum support d y ≤ tau) ∧ rows = r := by
  induction n with
  | zero =>
      refine ⟨{}, rowsAt_zero, fun r => ?_⟩
      have hnone : ∀ y, 1 ≤ y → y ≤ 0 → rowSum support d y ≤ tau :=
        fun y h h' => absurd (h.trans h') (by decide)
      rw [List.range'_zero, List.foldlM_nil, pure_eq_ok]
      exact ⟨fun h => ⟨hnone, h⟩, fun h => h.2⟩
  | succ n ih =>
      obtain ⟨rows, hrows, hfold⟩ := ih (Nat.le_of_succ_le hn)
      obtain ⟨rows', hrows', hrow⟩ := checkRow_spec hd hkeys hn hrows
      refine ⟨rows', hrows', fun r => ?_⟩
      rw [List.range'_1_concat, List.foldlM_append, bind_eq_ok]
      simp only [hfold, List.foldlM_cons, List.foldlM_nil, Nat.add_comm 1 n, bind_eq_ok, pure_eq_ok]
      constructor
      · rintro ⟨_, ⟨hall, rfl⟩, r', hr, rfl⟩
        obtain ⟨hle, rfl⟩ := (hrow r').mp hr
        refine ⟨fun y hy hy' => ?_, rfl⟩
        rcases Nat.lt_or_eq_of_le hy' with hlt | rfl
        · exact hall y hy (Nat.lt_succ_iff.mp hlt)
        · exact hle
      · rintro ⟨hall, rfl⟩
        exact ⟨rows, ⟨fun y hy hy' => hall y hy (hy'.trans (Nat.le_succ n)), rfl⟩, rows',
          (hrow rows').mpr ⟨hall (n + 1) (Nat.succ_pos n) le_rfl, rfl⟩, rfl⟩

/-! ### The result -/

theorem intToStr_eq_ok {n : ℤ} {text : String} :
    intToStr n = .ok text ↔ n.natAbs < 10 ^ intMaxStrDigits ∧ toString n = text := by
  simp only [intToStr, bind_eq_ok, revertIf_eq_ok, pure_eq_ok, exists_const, not_le]

/-- The rows of the verifier. -/
def InDomain (x : ℕ) : Prop := 1 ≤ x ∧ x ≤ domainMax

/-- `x` is the first row with the largest sum. -/
structure FirstMax (support : List (ℕ × ℤ)) (d x : ℕ) : Prop where
  inDomain : InDomain x
  max : ∀ y, InDomain y → rowSum support d y ≤ rowSum support d x
  first : ∀ y, InDomain y → y < x → rowSum support d y < rowSum support d x

theorem firstMax_of_rowsAt (hd : 0 < d) {rows : Rows} (h : RowsAt support domainMax rows) :
    FirstMax support d rows.maxX := by
  have hpos : (0 : ℚ) < commonDenominator support d := Nat.cast_pos.mpr (commonDenominator_pos hd)
  obtain ⟨-, hlow, hhigh⟩ := h.found (by decide)
  refine ⟨⟨hlow, hhigh⟩, fun y hy => ?_, fun y hy hlt => ?_⟩
  · rw [← mul_le_mul_iff_left₀ hpos, rowSum_mul hd, rowSum_mul hd]
    exact Int.cast_le.mpr (h.max y hy.1 hy.2)
  · rw [← mul_lt_mul_iff_left₀ hpos, rowSum_mul hd, rowSum_mul hd]
    exact Int.cast_lt.mpr (h.first y hy.1 hlt)

/-- The verifier raises nothing just when all rows hold and both integers of the result can be printed. -/
theorem checkConstraints_spec (hd : 0 < d) (hkeys : ∀ e ∈ support, 0 < e.1) :
    ∃ x, FirstMax support d x ∧ ∀ details, checkConstraints support d = .ok details ↔
      (∀ y, InDomain y → rowSum support d y ≤ tau) ∧
      (rowNumerator support x).natAbs < 10 ^ intMaxStrDigits ∧
      commonDenominator support d < 10 ^ intMaxStrDigits ∧
      details = ⟨domainMax, x, toString (rowNumerator support x),
        toString ((commonDenominator support d : ℕ) : ℤ)⟩ := by
  obtain ⟨rows, hrows, hfold⟩ := rows_spec hd hkeys le_rfl
  have hmax := (hrows.found (by decide)).1
  refine ⟨rows.maxX, firstMax_of_rowsAt hd hrows, fun details => ?_⟩
  have hcast : ((d : ℤ) * ((weight support).den : ℤ)) = ((commonDenominator support d : ℕ) : ℤ) := by
    rw [commonDenominator, Nat.cast_mul]
  have hdomain : (∀ y, 1 ≤ y → y ≤ domainMax → rowSum support d y ≤ tau) ↔
      ∀ y, InDomain y → rowSum support d y ≤ tau := forall_congr' fun y => and_imp.symm
  simp only [checkConstraints, bind_eq_ok, hfold, hdomain]
  constructor
  · rintro ⟨_, ⟨hall, rfl⟩, hresult⟩
    simp only [hmax, hcast, bind_eq_ok, intToStr_eq_ok, pure_eq_ok, Int.natAbs_natCast] at hresult
    obtain ⟨_, ⟨hnum, rfl⟩, _, ⟨hden, rfl⟩, rfl⟩ := hresult
    exact ⟨hall, hnum, hden, rfl⟩
  · rintro ⟨hall, hnum, hden, rfl⟩
    refine ⟨rows, ⟨hall, rfl⟩, ?_⟩
    simp only [hmax, hcast, bind_eq_ok, intToStr_eq_ok, pure_eq_ok, Int.natAbs_natCast]
    exact ⟨_, ⟨hnum, rfl⟩, _, ⟨hden, rfl⟩, rfl⟩

/-- Some row is violated, or all of them and the common denominator can be printed: no row reaches
`10 ^ 4300` over the common denominator, and some row is above `-10 ^ 4300`. -/
def Printable (support : List (ℕ × ℤ)) (d : ℕ) : Prop :=
  (∃ x, InDomain x ∧ tau < rowSum support d x) ∨
    (commonDenominator support d < 10 ^ intMaxStrDigits ∧
      (∀ x, InDomain x → rowSum support d x * commonDenominator support d < 10 ^ intMaxStrDigits) ∧
      ∃ x, InDomain x ∧ -10 ^ intMaxStrDigits < rowSum support d x * commonDenominator support d)

/-- What is expected of the verifier on a support. -/
structure ExactOn (support : List (ℕ × ℤ)) (d : ℕ) : Prop where
  accepts : (∃ details, checkConstraints support d = .ok details) ↔
    ∀ x, InDomain x → rowSum support d x ≤ tau
  argmax : ∀ details, checkConstraints support d = .ok details → FirstMax support d details.maxConstraintX

theorem printable_rows_iff (hd : 0 < d) {x : ℕ} (hx : FirstMax support d x) :
    (rowNumerator support x).natAbs < 10 ^ intMaxStrDigits ↔
      (∀ y, InDomain y → rowSum support d y * commonDenominator support d < 10 ^ intMaxStrDigits) ∧
      ∃ y, InDomain y ∧ -10 ^ intMaxStrDigits < rowSum support d y * commonDenominator support d := by
  have hpos : (0 : ℚ) < commonDenominator support d := Nat.cast_pos.mpr (commonDenominator_pos hd)
  have hle : ∀ y, InDomain y → rowSum support d y * commonDenominator support d ≤ rowNumerator support x := by
    intro y hy
    rw [← rowSum_mul hd]
    exact mul_le_mul_of_nonneg_right (hx.max y hy) hpos.le
  have hmin : ((10 : ℚ) ^ intMaxStrDigits) = ((10 ^ intMaxStrDigits : ℤ) : ℚ) := by
    rw [Int.cast_pow]
    rfl
  have habs : (rowNumerator support x).natAbs < 10 ^ intMaxStrDigits ↔
      -(10 : ℚ) ^ intMaxStrDigits < rowNumerator support x ∧
        (rowNumerator support x : ℚ) < 10 ^ intMaxStrDigits := by
    rw [hmin, ← Int.cast_neg, Int.cast_lt, Int.cast_lt, ← abs_lt, ← Int.natCast_natAbs, ← @Nat.cast_lt ℤ]
    push_cast
    rfl
  rw [habs]
  constructor
  · rintro ⟨hlow, hhigh⟩
    refine ⟨fun y hy => (hle y hy).trans_lt hhigh, x, hx.inDomain, ?_⟩
    rw [rowSum_mul hd]
    exact hlow
  · rintro ⟨hall, y, hy, hlow⟩
    have hhigh := hall x hx.inDomain
    rw [rowSum_mul hd] at hhigh
    exact ⟨hlow.trans_le (hle y hy), hhigh⟩

theorem exactOn_iff (hd : 0 < d) (hkeys : ∀ e ∈ support, 0 < e.1) :
    ExactOn support d ↔ Printable support d := by
  obtain ⟨x, hx, hcheck⟩ := checkConstraints_spec hd hkeys
  have hok : (∃ details, checkConstraints support d = .ok details) ↔
      (∀ y, InDomain y → rowSum support d y ≤ tau) ∧
      (rowNumerator support x).natAbs < 10 ^ intMaxStrDigits ∧
      commonDenominator support d < 10 ^ intMaxStrDigits := by
    constructor
    · rintro ⟨details, h⟩
      obtain ⟨hall, hnum, hden, -⟩ := (hcheck details).mp h
      exact ⟨hall, hnum, hden⟩
    · rintro ⟨hall, hnum, hden⟩
      exact ⟨_, (hcheck _).mpr ⟨hall, hnum, hden, rfl⟩⟩
  have hargmax : ∀ details, checkConstraints support d = .ok details →
      FirstMax support d details.maxConstraintX := by
    intro details h
    obtain ⟨-, -, -, rfl⟩ := (hcheck details).mp h
    exact hx
  have hviolated : (∃ y, InDomain y ∧ tau < rowSum support d y) ↔
      ¬ ∀ y, InDomain y → rowSum support d y ≤ tau := by
    push Not
    rfl
  rw [Printable, hviolated]
  constructor
  · intro h
    by_cases hall : ∀ y, InDomain y → rowSum support d y ≤ tau
    · obtain ⟨-, hnum, hden⟩ := hok.mp (h.accepts.mpr hall)
      exact .inr ⟨hden, (printable_rows_iff hd hx).mp hnum⟩
    · exact .inl hall
  · intro h
    refine ⟨⟨fun hdone => (hok.mp hdone).1, fun hall => ?_⟩, hargmax⟩
    obtain hviolated | ⟨hden, hrows⟩ := h
    · exact absurd hall hviolated
    · exact hok.mpr ⟨hall, (printable_rows_iff hd hx).mpr hrows, hden⟩

/-! ### Parsed supports -/

theorem parseEntry_ok {cap : ℤ} {index : ℕ} {seen : List ℕ} {rawEntry : Json} {entry : ℕ × ℤ}
    (h : parseEntry cap index seen rawEntry = .ok entry) : 2 ≤ entry.1 := by
  unfold parseEntry at h
  split at h
  · simp only [bind_eq_ok, revertIf_eq_ok, pure_eq_ok, exists_const] at h
    obtain ⟨key, -, numerator, -, hrange, -, -, rfl⟩ := h
    dsimp only
    omega
  · cases h

theorem parseSupport_ok {cap : ℤ} {index : ℕ} {read all : List (ℕ × ℤ)} {rawEntries : List Json}
    (h : parseSupport cap index read rawEntries = .ok all) (hread : ∀ e ∈ read, 0 < e.1) :
    ∀ e ∈ all, 0 < e.1 := by
  induction rawEntries generalizing index read with
  | nil =>
      obtain rfl := Except.ok.inj h
      exact hread
  | cons rawEntry rawEntries ih =>
      simp only [parseSupport, bind_eq_ok] at h
      obtain ⟨entry, hentry, hrest⟩ := h
      have hkey := parseEntry_ok hentry
      refine ih hrest fun e he => ?_
      rcases List.mem_append.mp he with he | he
      · exact hread e he
      · rw [List.mem_singleton.mp he]
        omega

theorem parseSolution_ok {loads : Bytes → Except String Json} {raw : Bytes} {parsed : ParsedSolution}
    (h : parseSolution loads raw = .ok parsed) :
    0 < parsed.denominator ∧ ∀ e ∈ parsed.support, 0 < e.1 := by
  unfold parseSolution at h
  simp only [bind_eq_ok, revertIf_eq_ok, exists_const] at h
  obtain ⟨data, -, -, denominator, -, hrange, printed, -, -, h⟩ := h
  split at h
  · simp only [bind_eq_ok, revertIf_eq_ok, pure_eq_ok, exists_const] at h
    obtain ⟨-, support, hsupport, rfl⟩ := h
    refine ⟨by dsimp only; omega, fun e he => ?_⟩
    exact parseSupport_ok hsupport (fun e he => absurd he List.not_mem_nil) e ((List.mem_insertionSort _).mp he)
  · cases h

/-- On an admitted solution the verifier does what is expected of it just when the result can be
printed. -/
theorem sparseMertens_exact (loads : Bytes → Except String Json) (raw : Bytes) (parsed : ParsedSolution)
    (h : parseSolution loads raw = .ok parsed) :
    ExactOn parsed.support parsed.denominator ↔ Printable parsed.support parsed.denominator := by
  obtain ⟨hd, hkeys⟩ := parseSolution_ok h
  exact exactOn_iff hd hkeys

/-! ### Solutions by their support -/

/-- A document with the value `1 / 1` at each of some keys. -/
def unitDocument (keys : List ℕ) : Json :=
  .dict [("reach", .int reach), ("denominator", .int 1), ("printed_decimal", .str "0.0000000000000000"),
    ("support", .list (keys.map fun key : ℕ => .dict [("k", .int key), ("value", .int 1)]))]

theorem parseSupport_unit {keys seen : List ℕ} {cap : ℤ} (index : ℕ) (hcap : 1 ≤ cap)
    (hkeys : ∀ key ∈ keys, 2 ≤ key ∧ key ≤ reach) (hnodup : (seen ++ keys).Nodup) :
    parseSupport cap index (seen.map fun key => (key, 1))
        (keys.map fun key : ℕ => .dict [("k", .int key), ("value", .int 1)]) =
      .ok ((seen ++ keys).map fun key => (key, 1)) := by
  induction keys generalizing seen index with
  | nil =>
      rw [List.map_nil, List.append_nil]
      rfl
  | cons key keys ih =>
      obtain ⟨⟨hlow, hhigh⟩, hkeys⟩ := List.forall_mem_cons.mp hkeys
      have hnew : key ∉ seen := fun hmem =>
        (List.nodup_append.mp hnodup).2.2 key hmem key List.mem_cons_self rfl
      have hseen : (seen.map fun key => (key, (1 : ℤ))).map Prod.fst = seen := by
        rw [List.map_map]
        exact List.map_id seen
      have hentry : parseEntry cap index ((seen.map fun key => (key, (1 : ℤ))).map Prod.fst)
          (.dict [("k", .int key), ("value", .int 1)]) = .ok (key, 1) := by
        rw [hseen]
        simp only [parseEntry, bind_eq_ok, requireInt_eq_ok, revertIf_eq_ok, pure_eq_ok, exists_const]
        exact ⟨key, rfl, 1, rfl, by omega, by rwa [Int.toNat_natCast], by rw [abs_one]; omega, rfl⟩
      rw [List.append_cons] at hnodup
      have hrest := ih (index + 1) hkeys hnodup
      rw [List.map_append] at hrest
      rw [List.map_cons, parseSupport, hentry, List.append_cons]
      exact hrest

theorem parseSolution_unit {keys : List ℕ} (hne : keys ≠ []) (hlength : keys.length ≤ maxSupport)
    (hkeys : ∀ key ∈ keys, 2 ≤ key ∧ key ≤ reach) (hsorted : keys.Pairwise (· < ·)) :
    parseSolution (fun _ => .ok (unitDocument keys)) [] =
      .ok ⟨1, "0.0000000000000000", keys.map fun key => (key, 1)⟩ := by
  have hsupport := @parseSupport_unit keys [] 10 0 (by decide) hkeys
    (hsorted.imp fun hlt => hlt.ne)
  have hsort : (keys.map fun key => (key, (1 : ℤ))).insertionSort PairLe = keys.map fun key => (key, 1) :=
    (List.pairwise_map.mpr (hsorted.imp fun hlt => .inl hlt)).insertionSort_eq
  have hdecimal : printedDecimalRe.rmatch "0.0000000000000000".toList = true := by decide +kernel
  have hlen : (keys.map fun key : ℕ => Json.dict [("k", .int key), ("value", .int 1)]).length = keys.length :=
    List.length_map _
  have hpos : keys.length ≠ 0 := fun h => hne (List.length_eq_zero_iff.mp h)
  have hreach : Json.equalsInt (some (.int reach)) reach = true := by
    simp [Json.equalsInt]
  simp only [parseSolution, bind_eq_ok, loadObject_eq_ok, requireInt_eq_ok, revertIf_eq_ok, exists_const]
  refine ⟨_, ⟨Nat.zero_le _, rfl⟩, ?_, 1, rfl, by decide, "0.0000000000000000", rfl, ?_, ?_⟩
  · exact fun h => absurd (hreach.symm.trans h) Bool.true_eq_false_eq_False.elim
  · rw [hdecimal]
    exact Bool.true_eq_false_eq_False.elim
  · show (do
      revertIf (_ = 0 ∨ _ > maxSupport) _
      let support ← parseSupport (10 * 1) 0 [] _
      return (⟨1, "0.0000000000000000", support.insertionSort PairLe⟩ : ParsedSolution)) = Except.ok _
    simp only [bind_eq_ok, revertIf_eq_ok, pure_eq_ok, exists_const, hlen]
    exact ⟨by omega, _, hsupport, congrArg (ParsedSolution.mk 1 "0.0000000000000000") hsort⟩

theorem sparseMertens_exact_pair :
    ExactOn [(2, 1), (3, 1)] 1 ↔ Printable [(2, 1), (3, 1)] 1 :=
  sparseMertens_exact _ [] ⟨1, "0.0000000000000000", [(2, 1), (3, 1)]⟩
    (@parseSolution_unit [2, 3] (by decide) (by decide) (by decide) (by decide))

/-! ### A denominator that cannot be printed -/

/-- With no negative value every row is at most zero. -/
theorem rowSum_nonpos (hvalues : ∀ e ∈ support, 0 ≤ e.2) (x : ℕ) : rowSum support d x ≤ 0 := by
  have hle : (support.map fun e => (e.2 : ℚ) / d * ((x / e.1 : ℕ) : ℚ)).sum ≤
      (support.map fun e => (e.2 : ℚ) / d / e.1 * x).sum := by
    refine List.sum_le_sum fun e he => ?_
    have hvalue : (0 : ℚ) ≤ e.2 / d := div_nonneg (Int.cast_nonneg (hvalues e he)) (Nat.cast_nonneg d)
    calc (e.2 : ℚ) / d * ((x / e.1 : ℕ) : ℚ)
      _ ≤ e.2 / d * (x / e.1) := mul_le_mul_of_nonneg_left Nat.cast_div_le hvalue
      _ = e.2 / d / e.1 * x := by ring
  rw [List.sum_map_mul_right] at hle
  rw [rowSum, valueAtOne]
  linarith

/-- The odd keys from 92001 on. -/
def oddKeys : List ℕ := (List.range 2000).map fun i => 92001 + 2 * i

theorem range_mul (n m : ℕ) (f : ℕ → ℚ) : ((List.range (n * m)).map f).sum =
    ((List.range n).map fun j => ((List.range m).map fun i => f (m * j + i)).sum).sum := by
  induction n with
  | zero => simp
  | succ n ih =>
      rw [Nat.succ_mul, List.range_add, List.map_append, List.sum_append, ih, List.range_succ,
        List.map_append, List.sum_append, List.map_map, Nat.mul_comm n m]
      simp [Function.comp_def]

theorem weight_oddKeys : 10 ^ intMaxStrDigits ≤ (weight (oddKeys.map fun key => (key, 1))).den := by
  have hblocks := range_mul 40 50 fun i => ((1 : ℤ) : ℚ) / ((92001 + 2 * i : ℕ) : ℚ)
  have hweight : weight (oddKeys.map fun key => (key, 1)) =
      ((List.range (40 * 50)).map fun i => ((1 : ℤ) : ℚ) / ((92001 + 2 * i : ℕ) : ℚ)).sum := by
    rw [weight, oddKeys, List.map_map, List.map_map]
    rfl
  rw [hweight, hblocks]
  decide +kernel

/-- The value 1 at 2000 odd keys keeps every row below zero, but the common denominator of the keys has
more than 4300 digits. -/
theorem sparseMertens_unprintable : ¬ ∀ (loads : Bytes → Except String Json) (raw : Bytes)
    (parsed : ParsedSolution), parseSolution loads raw = .ok parsed →
      ExactOn parsed.support parsed.denominator := by
  intro h
  have hrange : ∀ key ∈ oddKeys, 2 ≤ key ∧ key ≤ reach := by
    intro key hkey
    obtain ⟨i, hi, rfl⟩ := List.mem_map.mp hkey
    have hlt := List.mem_range.mp hi
    unfold reach
    omega
  have hsorted : oddKeys.Pairwise (· < ·) :=
    List.pairwise_map.mpr (List.pairwise_lt_range.imp fun hlt => by omega)
  have hlength : oddKeys.length = 2000 := by rw [oddKeys, List.length_map, List.length_range]
  have hne : oddKeys ≠ [] := fun hnil => by
    rw [hnil] at hlength
    cases hlength
  have hparsed := parseSolution_unit hne hlength.le hrange hsorted
  have hvalues : ∀ e ∈ oddKeys.map fun key => (key, (1 : ℤ)), 0 ≤ e.2 := by
    intro e he
    obtain ⟨key, -, rfl⟩ := List.mem_map.mp he
    exact Int.one_nonneg
  have hall : ∀ x, rowSum (oddKeys.map fun key => (key, 1)) 1 x ≤ tau := by
    intro x
    refine (rowSum_nonpos hvalues x).trans ?_
    norm_num [tau]
  have hexact := h _ _ _ hparsed
  have hkeys := (parseSolution_ok hparsed).2
  dsimp only at hexact hkeys
  obtain ⟨x, -, hlt⟩ | ⟨hden, -⟩ := (exactOn_iff Nat.one_pos hkeys).mp hexact
  · exact absurd hlt (hall x).not_gt
  · have hlarge := weight_oddKeys
    rw [commonDenominator, Nat.one_mul] at hden
    exact absurd hden hlarge.not_gt

end P42Prizes.SparseMertens
