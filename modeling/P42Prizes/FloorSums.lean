import Mathlib.Algebra.BigOperators.Group.List.Basic
import Mathlib.Algebra.Order.Ring.Int
import Mathlib.Data.Int.Basic
import Mathlib.Data.Nat.Basic
import Mathlib.Data.List.GetD
import Mathlib.Tactic.Ring

/-! # Floor sums by a sieve

The sum of `value * ⌊x / key⌋` over some entries grows from `x - 1` to `x` by the values whose key
divides `x`.  A sieve collects these values for every `x` up to a limit, and a running total over the
buckets gives all the sums. -/

namespace FloorSums

/-- `for x in range(key, limit + 1, key): buckets[x] += value` -/
def addMultiples (limit : ℕ) (buckets : List ℤ) (entry : ℕ × ℤ) : List ℤ :=
  (List.range' entry.1 (limit / entry.1) entry.1).foldl (fun b x => b.modify x (· + entry.2)) buckets

def buckets (limit : ℕ) (entries : List (ℕ × ℤ)) : List ℤ :=
  entries.foldl (addMultiples limit) (List.replicate (limit + 1) 0)

/-- The values whose key divides `x`. -/
def divisorSum (entries : List (ℕ × ℤ)) (x : ℕ) : ℤ :=
  (entries.map fun entry => if entry.1 ∣ x then entry.2 else 0).sum

def floorSum (entries : List (ℕ × ℤ)) (x : ℕ) : ℤ :=
  (entries.map fun entry => entry.2 * ((x / entry.1 : ℕ) : ℤ)).sum

variable {limit x : ℕ} {entries : List (ℕ × ℤ)}

theorem length_foldl_modify (xs : List ℕ) (value : ℤ) (b : List ℤ) :
    (xs.foldl (fun b x => b.modify x (· + value)) b).length = b.length := by
  induction xs generalizing b with
  | nil => rfl
  | cons y xs ih => rw [List.foldl_cons, ih, List.length_modify]

theorem getD_foldl_modify {xs : List ℕ} (hxs : xs.Nodup) (value : ℤ) {b : List ℤ} (hx : x < b.length) :
    (xs.foldl (fun b x => b.modify x (· + value)) b).getD x 0 =
      b.getD x 0 + if x ∈ xs then value else 0 := by
  induction xs generalizing b with
  | nil => simp
  | cons y xs ih =>
      obtain ⟨hy, hxs⟩ := List.nodup_cons.mp hxs
      have hmodify : (b.modify y (· + value)).getD x 0 = b.getD x 0 + if x = y then value else 0 := by
        rw [List.getD_eq_getElem?_getD, List.getD_eq_getElem?_getD, List.getElem?_modify,
          List.getElem?_eq_getElem hx]
        by_cases hxy : x = y
        · simp [hxy]
        · simp [hxy, Ne.symm hxy]
      rw [List.foldl_cons, ih hxs (by rwa [List.length_modify]), hmodify, add_assoc]
      congr 1
      by_cases hxy : x = y
      · subst hxy
        simp [hy]
      · simp [hxy]

theorem mem_multiples {key : ℕ} (hkey : 0 < key) (hx : 0 < x) (hle : x ≤ limit) :
    x ∈ List.range' key (limit / key) key ↔ key ∣ x := by
  rw [List.mem_range']
  constructor
  · rintro ⟨i, -, rfl⟩
    exact ⟨i + 1, by ring⟩
  · rintro ⟨j, rfl⟩
    obtain ⟨i, rfl⟩ : ∃ i, j = i + 1 := ⟨j - 1, by have := Nat.pos_of_mul_pos_left hx; omega⟩
    exact ⟨i, (Nat.le_div_iff_mul_le hkey).mpr (by rwa [Nat.mul_comm]), by ring⟩

theorem getD_buckets (hkeys : ∀ entry ∈ entries, 0 < entry.1) (hx : 0 < x) (hle : x ≤ limit) :
    (buckets limit entries).getD x 0 = divisorSum entries x := by
  have hfold : ∀ b : List ℤ, b.length = limit + 1 →
      (entries.foldl (addMultiples limit) b).getD x 0 = b.getD x 0 + divisorSum entries x := by
    unfold divisorSum
    induction entries with
    | nil => simp
    | cons entry entries ih =>
        intro b hb
        obtain ⟨hkey, hkeys⟩ := List.forall_mem_cons.mp hkeys
        have hlength : (addMultiples limit b entry).length = limit + 1 := by
          rw [addMultiples, length_foldl_modify, hb]
        have hbucket : (addMultiples limit b entry).getD x 0 =
            b.getD x 0 + if entry.1 ∣ x then entry.2 else 0 := by
          rw [addMultiples, getD_foldl_modify (List.nodup_range' entry.1 hkey) _ (by omega)]
          simp only [mem_multiples hkey hx hle]
        rw [List.foldl_cons, ih hkeys _ hlength, hbucket, List.map_cons, List.sum_cons, add_assoc]
  have hzero : (List.replicate (limit + 1) (0 : ℤ)).getD x 0 = 0 := by
    rw [List.getD_eq_getElem?_getD, List.getElem?_replicate]
    split <;> rfl
  rw [buckets, hfold _ List.length_replicate, hzero, zero_add]

theorem floorSum_zero : floorSum entries 0 = 0 := by
  unfold floorSum
  induction entries with
  | nil => rfl
  | cons entry entries ih => rw [List.map_cons, List.sum_cons, ih, Nat.zero_div]; simp

theorem floorSum_succ (x : ℕ) : floorSum entries (x + 1) = floorSum entries x + divisorSum entries (x + 1) := by
  unfold floorSum divisorSum
  induction entries with
  | nil => rfl
  | cons entry entries ih =>
      rw [List.map_cons, List.sum_cons, ih, List.map_cons, List.sum_cons, List.map_cons, List.sum_cons,
        Nat.succ_div]
      split
      · push_cast
        ring
      · push_cast
        ring

end FloorSums
