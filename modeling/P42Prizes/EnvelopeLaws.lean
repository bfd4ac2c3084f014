import P42Prizes.ChallengeEnvelope
import P42Prizes.Systems

/-! # What the spending envelope keeps

Every operation replaces at most one day's bucket.  `Sound` is kept by a replacement that moves, drops
or adds charges of that one bucket, so the loops over the days only have to say which bucket they have
found. -/

namespace P42Prizes.Agent

open Reverting Transition Keyed

/-! ### Charges -/

/-- What a row counts for: its id, its problem and its amount. -/
def Row.charge (row : Row) : String × String × ℕ := (row.id, row.problemId, row.amountWei)

theorem sum_map_le_of_subperm {α : Type} {l l' : List α} (f : α → ℕ) (h : l.Subperm l') :
    (l.map f).sum ≤ (l'.map f).sum := by
  obtain ⟨l'', hperm, hsub⟩ := h
  rw [← (hperm.map f).sum_eq]
  exact (hsub.map f).sum_le_sum (fun _ _ => Nat.zero_le _)

theorem subperm_map {α β : Type} {l l' : List α} (f : α → β) (h : l.Subperm l') :
    (l.map f).Subperm (l'.map f) := by
  obtain ⟨l'', hperm, hsub⟩ := h
  exact ⟨l''.map f, hperm.map f, hsub.map f⟩

theorem nodup_of_subperm {α : Type} {l l' : List α} (h : l.Subperm l') (hn : l'.Nodup) : l.Nodup := by
  obtain ⟨l'', hperm, hsub⟩ := h
  exact hperm.nodup_iff.mp (hsub.nodup hn)

namespace Bucket

variable {b b' : Bucket}

def charges (b : Bucket) : List (String × String × ℕ) := b.rows.map Row.charge

theorem total_eq (b : Bucket) : b.total = (b.charges.map (fun charge => charge.2.2)).sum := by
  rw [total, charges, List.map_map]
  rfl

theorem totalOf_eq (b : Bucket) (problemId : String) : b.totalOf problemId =
    ((b.charges.filter (fun charge => charge.2.1 = problemId)).map (fun charge => charge.2.2)).sum := by
  rw [totalOf, charges, List.filter_map, List.map_map]
  rfl

theorem ids_eq (b : Bucket) : b.rows.map Row.id = b.charges.map Prod.fst := by
  rw [charges, List.map_map]
  rfl

theorem total_le (h : b'.charges.Subperm b.charges) : b'.total ≤ b.total := by
  rw [total_eq, total_eq]
  exact sum_map_le_of_subperm _ h

theorem totalOf_le (h : b'.charges.Subperm b.charges) (problemId : String) :
    b'.totalOf problemId ≤ b.totalOf problemId := by
  rw [totalOf_eq, totalOf_eq]
  exact sum_map_le_of_subperm _ (h.filter _)

end Bucket

/-! ### Rows -/

/-- A name that no plain object inherits and that the reader accepts. -/
def Plain (id : String) : Prop := id ∉ objectPrototypeNames ∧ id ∉ forbiddenKeys

instance (id : String) : Decidable (Plain id) := inferInstanceAs (Decidable (_ ∧ _))

def Reserved (id : String) (rows : List Row) : Prop := ∃ row ∈ rows, row.id = id

instance (id : String) (rows : List Row) : Decidable (Reserved id rows) :=
  inferInstanceAs (Decidable (∃ row ∈ rows, row.id = id))

section Rows

variable {id : String} {rows : List Row} {row : Row}

theorem has_iff (h : Plain id) : has rows id = true ↔ Reserved id rows := by
  simp only [has, Bool.or_eq_true, List.any_eq_true, decide_eq_true_eq, List.contains_iff_mem]
  exact or_iff_left h.1

theorem Plain.ne_proto (h : Plain id) : id ≠ "__proto__" := by
  rintro rfl
  exact h.1 (by decide)

theorem put_new (row : Row) (h : Plain row.id) (hnew : ¬ Reserved row.id rows) :
    put row rows = rows ++ [row] := by
  have hfilter : rows.filter (fun other => other.id ≠ row.id) = rows := by
    rw [List.filter_eq_self]
    intro other hother
    simpa using fun heq : other.id = row.id => hnew ⟨other, hother, heq⟩
  rw [put, if_neg h.ne_proto, hfilter]

theorem not_reserved_erase : ¬ Reserved id (erase id rows) := by
  rintro ⟨row, hrow, hid⟩
  exact absurd hid (by simpa [erase] using (List.mem_filter.mp hrow).2)

theorem erase_sublist : (erase id rows).Sublist rows := List.filter_sublist

theorem erase_eq_self (h : ¬ Reserved id rows) : erase id rows = rows := by
  rw [erase, List.filter_eq_self]
  intro row hrow
  simpa using fun heq : row.id = id => h ⟨row, hrow, heq⟩

theorem mark_charges (id : String) (intent : ActionIntent) (rows : List Row) :
    (mark id intent rows).map Row.charge = rows.map Row.charge := by
  rw [mark, List.map_map]
  refine List.map_congr_left (fun row _ => ?_)
  simp only [Function.comp_apply]
  split <;> rfl

/-- Taking out the one row of `id`. -/
theorem perm_erase (hn : (rows.map Row.id).Nodup) (h : row ∈ rows) :
    rows.Perm (row :: erase row.id rows) := by
  obtain ⟨pre, post, rfl⟩ := List.append_of_mem h
  have hnew : ¬ Reserved row.id (pre ++ post) := by
    rintro ⟨other, hother, hid⟩
    have hcons := (List.perm_middle.map Row.id).nodup_iff.mp hn
    exact (List.nodup_cons.mp hcons).1 (List.mem_map.mpr ⟨other, hother, hid⟩)
  have herase : erase row.id (pre ++ row :: post) = pre ++ post := by
    have hself := erase_eq_self hnew
    simp only [erase, List.filter_append] at hself ⊢
    rw [List.filter_cons_of_neg (by simp), hself]
  rw [herase]
  exact List.perm_middle

end Rows

/-! ### Sound files -/

namespace Envelope

variable {bound : ChallengeLimits} {s s' : Envelope} {day : ℕ} {b b' : Bucket}

def ids (s : Envelope) : List String := s.rows.map Row.id

structure Sound (bound : ChallengeLimits) (s : Envelope) : Prop where
  days : (keys s.days).Nodup
  ids : s.ids.Nodup
  plain : ∀ id ∈ s.ids, Plain id
  pending : s.pending.length ≤ 1
  total : ∀ entry ∈ s.days, (entry.2.total : ℤ) ≤ bound.globalDayWei
  totalOf : ∀ entry ∈ s.days, ∀ problemId,
    (entry.2.totalOf problemId : ℤ) ≤ bound.perProblemDayWei

theorem sound_empty : Sound bound {} where
  days := List.nodup_nil
  ids := List.nodup_nil
  plain := fun _ h => absurd h List.not_mem_nil
  pending := Nat.zero_le _
  total := fun _ h => absurd h List.not_mem_nil
  totalOf := fun _ h => absurd h List.not_mem_nil

/-- The ids outside of a replaced bucket. -/
theorem ids_updated (h : Updated {} day b b' s.days s'.days) : ∃ others,
    s.ids.Perm (b.charges.map Prod.fst ++ others) ∧ s'.ids.Perm (b'.charges.map Prod.fst ++ others) := by
  obtain ⟨others, hs, hs'⟩ := h.flatMap Bucket.rows rfl
  refine ⟨others.map Row.id, ?_, ?_⟩
  · rw [← Bucket.ids_eq, ← List.map_append]
    exact hs.map Row.id
  · rw [← Bucket.ids_eq, ← List.map_append]
    exact hs'.map Row.id

theorem pending_updated (h : Updated {} day b b' s.days s'.days) :
    s'.pending.length + b.reservations.length = s.pending.length + b'.reservations.length := by
  obtain ⟨others, hs, hs'⟩ := h.flatMap Bucket.reservations rfl
  have hlen := hs.length_eq
  have hlen' := hs'.length_eq
  simp only [List.length_append] at hlen hlen'
  simp only [pending]
  omega

namespace Sound

/-- A bucket may lose charges and reservations. -/
theorem shrink (hs : s.Sound bound) (h : Updated {} day b b' s.days s'.days)
    (hday : (day, b) ∈ s.days) (hcharges : b'.charges.Subperm b.charges)
    (hpending : b'.reservations.length ≤ b.reservations.length) : s'.Sound bound := by
  have hids : s'.ids.Subperm s.ids := by
    obtain ⟨others, hold, hnew⟩ := ids_updated h
    exact hnew.subperm.trans (((subperm_map Prod.fst hcharges).append (List.Subperm.refl others)).trans hold.symm.subperm)
  constructor
  case days => exact h.nodup hs.days
  case ids => exact nodup_of_subperm hids hs.ids
  case plain => exact fun id hid => hs.plain id (hids.subset hid)
  case pending =>
    have hcount := pending_updated h
    have hone := hs.pending
    omega
  case total =>
    intro entry hentry
    rcases h.mem hentry with rfl | hold
    · have hle := Bucket.total_le hcharges
      have hbound := hs.total _ hday
      simp only at hbound ⊢
      omega
    · exact hs.total _ hold
  case totalOf =>
    intro entry hentry problemId
    rcases h.mem hentry with rfl | hold
    · have hle := Bucket.totalOf_le hcharges problemId
      have hbound := hs.totalOf _ hday problemId
      simp only at hbound ⊢
      omega
    · exact hs.totalOf _ hold problemId

/-- A bucket may gain one charge, when nothing is pending. -/
theorem grow (hs : s.Sound bound) (h : Updated {} day b b' s.days s'.days) {id problemId : String}
    {amount : ℕ} (hcharges : b'.charges.Perm ((id, problemId, amount) :: b.charges))
    (hpending : b'.reservations.length ≤ b.reservations.length + 1) (hnone : s.pending = [])
    (hplain : Plain id) (hid : id ∉ s.ids) (htotal : (b'.total : ℤ) ≤ bound.globalDayWei)
    (htotalOf : ∀ p, (b'.totalOf p : ℤ) ≤ bound.perProblemDayWei) : s'.Sound bound := by
  have hids : s'.ids.Perm (id :: s.ids) := by
    obtain ⟨others, hold, hnew⟩ := ids_updated h
    have hcons := (hcharges.map Prod.fst).append_right others
    exact hnew.trans (hcons.trans (hold.symm.cons id))
  constructor
  case days => exact h.nodup hs.days
  case ids => exact hids.nodup_iff.mpr (List.nodup_cons.mpr ⟨hid, hs.ids⟩)
  case plain =>
    intro other hother
    rcases List.mem_cons.mp (hids.mem_iff.mp hother) with rfl | hold
    · exact hplain
    · exact hs.plain other hold
  case pending =>
    have hcount := pending_updated h
    rw [hnone, List.length_nil] at hcount
    omega
  case total =>
    intro entry hentry
    rcases h.mem hentry with rfl | hold
    · exact htotal
    · exact hs.total _ hold
  case totalOf =>
    intro entry hentry p
    rcases h.mem hentry with rfl | hold
    · exact htotalOf p
    · exact hs.totalOf _ hold p

end Sound

end Envelope

/-! ### The loops over the days -/

namespace Envelope

variable {id : String}

theorem finalizeDays_spec (hid : Plain id) (receipt : FinalizedReceipt) (days : List (ℕ × Bucket)) :
    (∃ pre day b post row, days = pre ++ (day, b) :: post ∧ row ∈ b.reservations ∧ row.id = id ∧
      finalizeDays id receipt days = .ok (false, pre ++ (day, b.commit id row receipt) :: post)) ∨
    (finalizeDays id receipt days = .ok (true, days) ∧ ∃ entry ∈ days, Reserved id entry.2.spends) ∨
    (finalizeDays id receipt days = .error .noDurableReservation ∧
      ∀ entry ∈ days, ¬ Reserved id entry.2.reservations) := by
  induction days with
  | nil => exact .inr (.inr ⟨rfl, fun _ h => absurd h List.not_mem_nil⟩)
  | cons entry days ih =>
      obtain ⟨day, b⟩ := entry
      by_cases hspent : has b.spends id = true
      · refine .inr (.inl ⟨?_, (day, b), List.mem_cons_self .., (has_iff hid).mp hspent⟩)
        rw [finalizeDays, if_pos hspent]
        rfl
      · cases hfind : b.reservations.find? (fun row => row.id = id) with
        | some row =>
            refine .inl ⟨[], day, b, days, row, rfl, List.mem_of_find?_eq_some hfind, ?_, ?_⟩
            · simpa using List.find?_some hfind
            · rw [finalizeDays, if_neg hspent, hfind]
              rfl
        | none =>
            have hstep : finalizeDays id receipt ((day, b) :: days) =
                (finalizeDays id receipt days).map (fun r => (r.1, (day, b) :: r.2)) := by
              rw [finalizeDays, if_neg hspent, hfind]
              cases finalizeDays id receipt days <;> rfl
            rcases ih with ⟨pre, d, old, post, row, rfl, hrow, hrid, h⟩ | ⟨h, e, he, hes⟩ | ⟨h, hno⟩
            · exact .inl ⟨(day, b) :: pre, d, old, post, row, rfl, hrow, hrid, by rw [hstep, h]; rfl⟩
            · exact .inr (.inl ⟨by rw [hstep, h]; rfl, e, List.mem_cons_of_mem _ he, hes⟩)
            · refine .inr (.inr ⟨by rw [hstep, h]; rfl, List.forall_mem_cons.mpr ⟨?_, hno⟩⟩)
              rintro ⟨row, hrow, hrid⟩
              exact List.find?_eq_none.mp hfind row hrow (by simpa using hrid)

theorem markDays_spec (hid : Plain id) (intent : ActionIntent) (days : List (ℕ × Bucket)) :
    (∃ pre day b post, days = pre ++ (day, b) :: post ∧ Reserved id b.reservations ∧
      markDays id intent days =
        .ok (pre ++ (day, { b with reservations := mark id intent b.reservations }) :: post)) ∨
    (markDays id intent days = .error .noDurableReservation ∧
      ∀ entry ∈ days, ¬ Reserved id entry.2.reservations) := by
  induction days with
  | nil => exact .inr ⟨rfl, fun _ h => absurd h List.not_mem_nil⟩
  | cons entry days ih =>
      obtain ⟨day, b⟩ := entry
      by_cases hres : has b.reservations id = true
      · refine .inl ⟨[], day, b, days, rfl, (has_iff hid).mp hres, ?_⟩
        rw [markDays, if_pos hres]
        rfl
      · have hstep : markDays id intent ((day, b) :: days) =
            (markDays id intent days).map (fun days => (day, b) :: days) := by
          rw [markDays, if_neg hres]
          cases markDays id intent days <;> rfl
        rcases ih with ⟨pre, d, old, post, rfl, hold, h⟩ | ⟨h, hno⟩
        · exact .inl ⟨(day, b) :: pre, d, old, post, rfl, hold, by rw [hstep, h]; rfl⟩
        · refine .inr ⟨by rw [hstep, h]; rfl, List.forall_mem_cons.mpr ⟨?_, hno⟩⟩
          exact fun h => hres ((has_iff hid).mpr h)

end Envelope

/-! ### Files as functions -/

namespace Envelope

variable {bound : ChallengeLimits} {s s' : Envelope} {day : ℕ} {b b' : Bucket}

theorem bucket_updated (hn : (keys s.days).Nodup) (h : Updated {} day b b' s.days s'.days) :
    s'.bucket = Function.update s.bucket day b' := by
  funext d
  by_cases hd : d = day
  · subst hd
    rw [Function.update_self]
    exact h.lookup_self hn
  · rw [Function.update_of_ne hd]
    exact h.lookup_ne hn hd

theorem bucket_perm (hn : (keys s.days).Nodup) (h : s.days.Perm s'.days) : s'.bucket = s.bucket :=
  funext (fun _ => lookup_perm hn h)

theorem write_perm (s : Envelope) : s.days.Perm s.write.days :=
  (List.perm_insertionSort _ s.days).symm

theorem setBucket_updated (hn : (keys s.days).Nodup) (b : Bucket) :
    Updated {} day (s.bucket day) b s.days (s.setBucket day b).days := by
  by_cases hday : day ∈ keys s.days
  · obtain ⟨⟨day, old⟩, hmem, rfl⟩ := List.mem_map.mp hday
    have hany : s.days.any (fun entry => entry.1 = day) = true :=
      List.any_eq_true.mpr ⟨(day, old), hmem, by simp⟩
    have hold : s.bucket day = old := lookup_eq_of_mem hn hmem
    obtain ⟨pre, post, hdays⟩ := List.append_of_mem hmem
    rw [hdays] at hn
    have hfresh : ∀ entry ∈ pre ++ post, entry.1 ≠ day := by
      intro entry hentry heq
      have hcons := (List.perm_middle.map Prod.fst).nodup_iff.mp hn
      exact (List.nodup_cons.mp hcons).1 (List.mem_map.mpr ⟨entry, hentry, heq⟩)
    have hkeep : ∀ part : List (ℕ × Bucket), (∀ entry ∈ part, entry.1 ≠ day) →
        part.map (fun entry => if entry.1 = day then (day, b) else entry) = part := by
      intro part hpart
      exact (List.map_congr_left (fun entry h => if_neg (hpart entry h))).trans (List.map_id part)
    have hset : (s.setBucket day b).days = pre ++ (day, b) :: post := by
      rw [setBucket, if_pos hany, hdays]
      simp only [List.map_append, List.map_cons, if_true]
      rw [hkeep pre (fun entry h => hfresh entry (List.mem_append_left _ h)),
        hkeep post (fun entry h => hfresh entry (List.mem_append_right _ h))]
    rw [hset, hold, hdays]
    exact Updated.of_append hn
  · have hany : ¬ s.days.any (fun entry => entry.1 = day) = true := by
      intro h
      obtain ⟨entry, hmem, heq⟩ := List.any_eq_true.mp h
      exact hday (List.mem_map.mpr ⟨entry, hmem, by simpa using heq⟩)
    have hold : s.bucket day = {} := lookup_eq_default hday
    rw [setBucket, if_neg hany, hold]
    exact Updated.of_absent hday

namespace Sound

theorem perm (hs : s.Sound bound) (h : s.days.Perm s'.days) : s'.Sound bound where
  days := (h.map Prod.fst).nodup_iff.mp hs.days
  ids := ((h.flatMap_right _).map Row.id).nodup_iff.mp hs.ids
  plain := fun id hid => hs.plain id (((h.flatMap_right _).map Row.id).mem_iff.mpr hid)
  pending := (h.flatMap_right _).length_eq ▸ hs.pending
  total := fun entry hentry => hs.total entry (h.mem_iff.mpr hentry)
  totalOf := fun entry hentry => hs.totalOf entry (h.mem_iff.mpr hentry)

theorem write (hs : s.Sound bound) : s.write.Sound bound := hs.perm s.write_perm

theorem read (hs : s.Sound bound) : s.read = .ok s := by
  have hnone : ¬ ∃ row ∈ s.rows, row.id ∈ forbiddenKeys := by
    rintro ⟨row, hrow, hforbidden⟩
    exact (hs.plain row.id (List.mem_map.mpr ⟨row, hrow, rfl⟩)).2 hforbidden
  simp [Envelope.read, hnone]

theorem read_bind {α : Type} (hs : s.Sound bound) (f : Envelope → Except EnvelopeError α) :
    s.read >>= f = f s := by
  rw [hs.read]
  rfl

theorem bucket_ids (hs : s.Sound bound) (h : (day, b) ∈ s.days) : (b.rows.map Row.id).Nodup := by
  obtain ⟨pre, post, hdays⟩ := List.append_of_mem h
  have hids := hs.ids
  simp only [Envelope.ids, rows, hdays, List.flatMap_append, List.flatMap_cons, List.map_append] at hids
  exact (List.nodup_append.mp (List.nodup_append.mp hids).2.1).1

/-- What is reserved is not spent, on whatever day. -/
theorem not_spent (hs : s.Sound bound) {id : String} (h : Reserved id s.pending) :
    ∀ entry ∈ s.days, ¬ Reserved id entry.2.spends := by
  rintro entry hentry ⟨spend, hspend, hid⟩
  obtain ⟨row, hrow, hrid⟩ := h
  have hsplit : (s.pending ++ s.days.flatMap (fun entry => entry.2.spends)).Perm s.rows :=
    List.flatMap_append_perm _ _ _
  have hn := (hsplit.map Row.id).nodup_iff.mpr hs.ids
  rw [List.map_append] at hn
  exact (List.nodup_append.mp hn).2.2 id (List.mem_map.mpr ⟨row, hrow, hrid⟩) id
    (List.mem_map.mpr ⟨spend, List.mem_flatMap.mpr ⟨entry, hentry, hspend⟩, hid⟩) rfl

end Sound

theorem reserved_pending {id : String} :
    Reserved id s.pending ↔ ∃ entry ∈ s.days, Reserved id entry.2.reservations := by
  simp only [Reserved, pending, List.mem_flatMap]
  constructor
  · rintro ⟨row, ⟨entry, hentry, hrow⟩, hid⟩
    exact ⟨entry, hentry, row, hrow, hid⟩
  · rintro ⟨entry, hentry, row, hrow, hid⟩
    exact ⟨row, ⟨entry, hentry, hrow⟩, hid⟩

end Envelope

/-! ### Tightened limits -/

/-- The only tightening of the cap on pending reservations is to what it is, but the comparisons also
let a number that is none and a fraction pass. -/
def TightenedLimit.Whole : TightenedLimit → Prop
  | .maxPendingProvisioned value => value = .finite 1 ∨ value.le 0 = true ∨ value.gt 1 = true
  | _ => True

namespace ChallengeLimits

variable {limits limits' : ChallengeLimits} {entry : TightenedLimit} {entries : List TightenedLimit}

/-- What an accepted entry does to the limits. -/
theorem tighten_cases (h : limits.tighten entry = .ok limits') :
    (∃ value, entry = .perChallengeWei value ∧ limits' = { limits with perChallengeWei := value }) ∨
    (∃ value, entry = .perProblemDayWei value ∧ value ≤ defaultLimits.perProblemDayWei ∧
      limits' = { limits with perProblemDayWei := value }) ∨
    (∃ value, entry = .globalDayWei value ∧ value ≤ defaultLimits.globalDayWei ∧
      limits' = { limits with globalDayWei := value }) ∨
    (∃ value, entry = .maxCanonicalOpen value ∧ limits' = { limits with maxCanonicalOpen := value }) ∨
    (∃ value, entry = .maxPendingProvisioned value ∧ value.le 0 = false ∧ value.gt 1 = false ∧
      limits' = { limits with maxPendingProvisioned := value }) ∨
    ∃ key value, entry = .other key value ∧ limits' = limits := by
  cases entry <;> simp [tighten, requireTighter, requireTighterNumber] at h ⊢ <;> grind

theorem tighten_pending (h : limits.tighten entry = .ok limits') (hw : entry.Whole)
    (hone : limits.maxPendingProvisioned = .finite 1) :
    limits'.maxPendingProvisioned = .finite 1 := by
  rcases tighten_cases h with ⟨_, -, rfl⟩ | ⟨_, -, -, rfl⟩ | ⟨_, -, -, rfl⟩ | ⟨_, -, rfl⟩ |
    ⟨value, rfl, hle, hgt, rfl⟩ | ⟨_, _, -, rfl⟩
  case inr.inr.inr.inr.inl =>
    rcases hw with rfl | hw | hw
    · rfl
    · rw [hle] at hw
      cases hw
    · rw [hgt] at hw
      cases hw
  all_goals exact hone

theorem tighten_le (h : limits.tighten entry = .ok limits')
    (hl : limits.globalDayWei ≤ defaultLimits.globalDayWei ∧
      limits.perProblemDayWei ≤ defaultLimits.perProblemDayWei) :
    limits'.globalDayWei ≤ defaultLimits.globalDayWei ∧
      limits'.perProblemDayWei ≤ defaultLimits.perProblemDayWei := by
  rcases tighten_cases h with ⟨_, -, rfl⟩ | ⟨_, -, hle, rfl⟩ | ⟨_, -, hle, rfl⟩ | ⟨_, -, rfl⟩ |
    ⟨_, -, -, -, rfl⟩ | ⟨_, _, -, rfl⟩
  case inr.inl => exact ⟨hl.1, hle⟩
  case inr.inr.inl => exact ⟨hle, hl.2⟩
  all_goals exact hl

/-- What every accepted entry keeps holds of the tightened limits. -/
theorem tightenAll_keeps {P : ChallengeLimits → Prop} {Q : TightenedLimit → Prop}
    (hstep : ∀ l e l', Q e → ChallengeLimits.tighten l e = .ok l' → P l → P l') (hall : ∀ e ∈ entries, Q e)
    (h : tightenAll entries limits = .ok limits') (hl : P limits) : P limits' := by
  induction entries generalizing limits with
  | nil =>
      obtain rfl : limits = limits' := by simpa [tightenAll] using h
      exact hl
  | cons entry entries ih =>
      obtain ⟨l, hl', hrest⟩ := bind_eq_ok.mp h
      obtain ⟨hentry, hentries⟩ := List.forall_mem_cons.mp hall
      exact ih hentries hrest (hstep _ _ _ hentry hl' hl)

end ChallengeLimits

section Limits

variable {provisioned : Bool} {tightened : List TightenedLimit} {limits : ChallengeLimits}

theorem limits_ok (h : limitsFromProvisioning provisioned tightened = .ok limits) :
    defaultLimits.tightenAll tightened = .ok limits := by
  simp only [limitsFromProvisioning, bind_eq_ok] at h
  obtain ⟨_, -, h⟩ := h
  exact h

theorem limits_pending (h : limitsFromProvisioning provisioned tightened = .ok limits)
    (hw : ∀ entry ∈ tightened, entry.Whole) : limits.maxPendingProvisioned = .finite 1 :=
  ChallengeLimits.tightenAll_keeps (P := fun l => l.maxPendingProvisioned = .finite 1)
    (fun _ _ _ hw h hone => ChallengeLimits.tighten_pending h hw hone) hw (limits_ok h) rfl

/-- Tightened limits are within those of the provisioning. -/
theorem limits_le_default (h : limitsFromProvisioning provisioned tightened = .ok limits) :
    limits.globalDayWei ≤ defaultLimits.globalDayWei ∧
      limits.perProblemDayWei ≤ defaultLimits.perProblemDayWei :=
  ChallengeLimits.tightenAll_keeps (Q := fun _ => True)
    (P := fun l => l.globalDayWei ≤ defaultLimits.globalDayWei ∧
      l.perProblemDayWei ≤ defaultLimits.perProblemDayWei)
    (fun _ _ _ _ h hl => ChallengeLimits.tighten_le h hl) (fun _ _ => trivial) (limits_ok h)
    ⟨le_refl _, le_refl _⟩

end Limits

/-! ### What one operation does -/

/-- The reservation that `reserveChallengeSpend` enters. -/
def ReserveInput.row (input : ReserveInput) : Row :=
  ⟨input.id, input.problemId, input.amountWei.toNat, .reserved, none⟩

namespace Envelope

variable {bound : ChallengeLimits} {s s' : Envelope} {day : ℕ} {id : String}

theorem reserved_iff_ids : (∃ entry ∈ s.days, Reserved id entry.2.rows) ↔ id ∈ s.ids := by
  simp only [Reserved, ids, rows, List.mem_map, List.mem_flatMap]
  constructor
  · rintro ⟨entry, hentry, row, hrow, hid⟩
    exact ⟨row, ⟨entry, hentry, hrow⟩, hid⟩
  · rintro ⟨row, ⟨entry, hentry, hrow⟩, hid⟩
    exact ⟨entry, hentry, row, hrow, hid⟩

theorem reserve_cases (hs : s.Sound bound) {input : ReserveInput} (hid : Plain input.id)
    {report : Report} (h : s.reserveChallengeSpend day input = .ok (report, s')) :
    ((∃ d, report = .alreadyReserved d) ∧ s' = s.write) ∨
    (report = .reserved day ∧ 0 < input.amountWei ∧ input.id ∉ s.ids ∧
      ∃ limits, limitsFromProvisioning input.provisioned input.tightened = .ok limits ∧
        limits.maxPendingProvisioned.le s.pending.length = false ∧
        (s.bucket day).totalOf input.problemId + input.amountWei ≤ limits.perProblemDayWei ∧
        (s.bucket day).total + input.amountWei ≤ limits.globalDayWei ∧
        s' = (s.setBucket day { s.bucket day with
          reservations := put input.row (s.bucket day).reservations }).write) := by
  simp only [reserveChallengeSpend, bind_eq_ok, revertIf_eq_ok, hs.read] at h
  obtain ⟨-, -, limits, hlimits, -, -, -, -, h⟩ := h
  cases hopen : input.openChallenges with
  | none =>
      rw [hopen] at h
      cases h
  | some openChallenges =>
      rw [hopen] at h
      simp only [bind_eq_ok, revertIf_eq_ok, Except.ok.injEq, exists_eq_left'] at h
      obtain ⟨-, -, -, hamount, h⟩ := h
      simp only [reserveLocked, bind_eq_ok, revertIf_eq_ok] at h
      obtain ⟨-, -, h⟩ := h
      split at h
      · obtain ⟨rfl, rfl⟩ : Report.alreadyReserved _ = report ∧ s.write = s' := by
          simpa using h
        exact .inl ⟨⟨_, rfl⟩, rfl⟩
      · rename_i hfind
        simp only [bind_eq_ok, revertIf_eq_ok, pure_eq_ok, Prod.mk.injEq] at h
        obtain ⟨-, hpending, -, hproblem, -, hglobal, rfl, rfl⟩ := h
        refine .inr ⟨rfl, by omega, ?_, limits, hlimits, by simpa using hpending, by omega, by omega,
          rfl⟩
        intro hmem
        obtain ⟨entry, hentry, row, hrow, hrid⟩ := reserved_iff_ids.mpr hmem
        have hnone := List.find?_eq_none.mp hfind entry hentry
        simp only [Bool.or_eq_true, has_iff hid, not_or] at hnone
        rcases List.mem_append.mp hrow with hrow | hrow
        · exact hnone.1 ⟨row, hrow, hrid⟩
        · exact hnone.2 ⟨row, hrow, hrid⟩

/-- The charges of a bucket after a reservation. -/
theorem charges_reserve (b : Bucket) {row : Row} (hid : Plain row.id)
    (hnew : ¬ Reserved row.id b.reservations) :
    Bucket.charges { b with reservations := put row b.reservations } =
      b.reservations.map Row.charge ++ row.charge :: b.spends.map Row.charge := by
  rw [put_new row hid hnew]
  simp [Bucket.charges, Bucket.rows]

theorem commit_eq {b : Bucket} {row : Row} (receipt : FinalizedReceipt) (hid : Plain row.id)
    (hspent : ¬ Reserved row.id b.spends) : b.commit row.id row receipt =
      ⟨erase row.id b.reservations, b.spends ++ [{ row with receipt := some receipt }]⟩ := by
  rw [Bucket.commit, put_new { row with receipt := some receipt } hid hspent]

/-- A spend counts like the reservation it was. -/
theorem charges_commit {b : Bucket} {row : Row} (receipt : FinalizedReceipt) (hid : Plain row.id)
    (hn : (b.rows.map Row.id).Nodup) (hrow : row ∈ b.reservations)
    (hspent : ¬ Reserved row.id b.spends) :
    (b.commit row.id row receipt).charges.Perm b.charges := by
  have hres : (b.reservations.map Row.id).Nodup := by
    rw [Bucket.rows, List.map_append] at hn
    exact (List.nodup_append.mp hn).1
  have hcommit : (b.commit row.id row receipt).charges =
      (erase row.id b.reservations).map Row.charge ++ (b.spends.map Row.charge ++ [row.charge]) := by
    rw [Bucket.charges, Bucket.rows, commit_eq receipt hid hspent]
    simp [Row.charge]
  have hold : b.charges.Perm
      (row.charge :: (erase row.id b.reservations).map Row.charge ++ b.spends.map Row.charge) := by
    rw [Bucket.charges, Bucket.rows, List.map_append]
    exact ((perm_erase hres hrow).map Row.charge).append_right _
  rw [hcommit, ← List.append_assoc]
  exact (List.perm_append_singleton ..).trans hold.symm

end Envelope

/-! ### Served operations -/

/-- Everything a reservation admits is within `bound`. -/
def ReserveInput.Within (bound : ChallengeLimits) (input : ReserveInput) : Prop :=
  match limitsFromProvisioning input.provisioned input.tightened with
  | .ok limits => limits.globalDayWei ≤ bound.globalDayWei ∧
      limits.perProblemDayWei ≤ bound.perProblemDayWei
  | .error _ => True

theorem ReserveInput.within_default (input : ReserveInput) : input.Within defaultLimits := by
  unfold ReserveInput.Within
  split
  · exact limits_le_default ‹_›
  · trivial

/-- The reservations of the first day of the file. -/
def Envelope.firstDay (s : Envelope) : List Row :=
  match s.days with
  | [] => []
  | (_, b) :: _ => b.reservations

/-- The operations that the loops serve: the release of a reservation that is on the first day of the
file, or from a file without days, and plain ids. -/
def EnvelopeOp.Served (bound : ChallengeLimits) (s : Envelope) : EnvelopeOp → Prop
  | reserve _ input => Plain input.id ∧ (∀ entry ∈ input.tightened, entry.Whole) ∧ input.Within bound
  | finalize id _ => Plain id
  | release id => Plain id ∧ (s.days = [] ∨ Reserved id s.firstDay)
  | intent id outcome => Plain id ∧
      (outcome = .fails → Reserved id s.pending → Reserved id s.firstDay)

/-- What the operations owe to their callers. -/
def EnvelopeOp.Lawful (s : Envelope) (op : EnvelopeOp) : Prop :=
  let out := op.run s
  match op with
  | reserve day input => out.2.bucket = s.bucket ∨
      out.1 = .ok (.reserved day) ∧ ∃ limits,
        limitsFromProvisioning input.provisioned input.tightened = .ok limits ∧
        out.2.bucket = Function.update s.bucket day { s.bucket day with
          reservations := (s.bucket day).reservations ++ [input.row] } ∧
        ((out.2.bucket day).total : ℤ) ≤ limits.globalDayWei ∧
        ((out.2.bucket day).totalOf input.problemId : ℤ) ≤ limits.perProblemDayWei
  | finalize id receipt =>
      (Reserved id s.pending → ∀ r, receipt = some r → out.1 = .ok (.committed false) ∧
        ∃ day row, row ∈ (s.bucket day).reservations ∧ row.id = id ∧
          out.2.bucket = Function.update s.bucket day ⟨erase id (s.bucket day).reservations,
            (s.bucket day).spends ++ [{ row with receipt := some r }]⟩) ∧
      (¬ Reserved id s.pending ∨ receipt = none → out.2.bucket = s.bucket)
  | release id => out.1 = .ok (.released (decide (Reserved id s.pending))) ∧
      ∀ day, out.2.bucket day =
        { s.bucket day with reservations := erase id (s.bucket day).reservations }
  | intent id outcome => (outcome = .fails ∨ ¬ Reserved id s.pending → ¬ Reserved id out.2.pending) ∧
      (outcome = .fails → Reserved id s.pending → out.2.pending = [])

/-! ### Every served operation -/

namespace Envelope

variable {bound : ChallengeLimits} {s s' : Envelope} {day : ℕ} {id : String}

theorem mem_bucket (hn : (keys s.days).Nodup) (h : Reserved id (s.bucket day).reservations) :
    (day, s.bucket day) ∈ s.days := by
  by_cases hday : day ∈ keys s.days
  · obtain ⟨⟨day, b⟩, hmem, rfl⟩ := List.mem_map.mp hday
    have hb : s.bucket day = b := lookup_eq_of_mem hn hmem
    rw [hb]
    exact hmem
  · have hb : s.bucket day = {} := lookup_eq_default hday
    rw [hb] at h
    obtain ⟨row, hrow, -⟩ := h
    cases hrow

theorem Sound.totalOf_bucket (hs : s.Sound bound) (day : ℕ) (hbound : 0 ≤ bound.perProblemDayWei)
    (problemId : String) : ((s.bucket day).totalOf problemId : ℤ) ≤ bound.perProblemDayWei := by
  by_cases hday : day ∈ keys s.days
  · obtain ⟨⟨day, b⟩, hmem, rfl⟩ := List.mem_map.mp hday
    have hb : s.bucket day = b := lookup_eq_of_mem hs.days hmem
    rw [hb]
    exact hs.totalOf _ hmem problemId
  · have hb : s.bucket day = {} := lookup_eq_default hday
    rw [hb]
    exact hbound

/-- An id is reserved on one day. -/
theorem Sound.reserved_once {b : Bucket} {days : List (ℕ × Bucket)} (hs : s.Sound bound)
    (hdays : s.days = (day, b) :: days) (h : Reserved id b.reservations) :
    ∀ entry ∈ days, ¬ Reserved id entry.2.reservations := by
  rintro entry hentry ⟨row, hrow, hid⟩
  obtain ⟨first, hfirst, hfid⟩ := h
  have hids := hs.ids
  simp only [Envelope.ids, rows, hdays, List.flatMap_cons, List.map_append] at hids
  refine (List.nodup_append.mp hids).2.2 id ?_ id ?_ rfl
  · exact List.mem_map.mpr ⟨first, List.mem_append_left _ hfirst, hfid⟩
  · exact List.mem_map.mpr
      ⟨row, List.mem_flatMap.mpr ⟨entry, hentry, List.mem_append_left _ hrow⟩, hid⟩

theorem Sound.reserved_day {day' : ℕ} (hs : s.Sound bound)
    (h : Reserved id (s.bucket day).reservations) (h' : Reserved id (s.bucket day').reservations) :
    day' = day := by
  obtain ⟨pre, post, hdays⟩ := List.append_of_mem (mem_bucket hs.days h)
  have hfront : Sound bound ⟨(day, s.bucket day) :: (pre ++ post)⟩ :=
    hs.perm (hdays ▸ List.perm_middle)
  have hmem := mem_bucket hs.days h'
  rw [hdays, List.perm_middle.mem_iff] at hmem
  rcases List.mem_cons.mp hmem with heq | hrest
  · exact congrArg Prod.fst heq
  · exact absurd h' (hfront.reserved_once rfl h _ hrest)

theorem release_spec (hs : s.Sound bound) (hfirst : Reserved id s.pending → Reserved id s.firstDay) :
    ∃ s', s.releaseChallengeReservation id = .ok (.released (decide (s.days ≠ [])), s') ∧
      s'.Sound bound ∧ ∀ day, s'.bucket day =
        { s.bucket day with reservations := erase id (s.bucket day).reservations } := by
  cases hdays : s.days with
  | nil =>
      refine ⟨s.write, ?_, hs.write, fun day => ?_⟩
      · simp only [releaseChallengeReservation, hs.read_bind, hdays]
        rfl
      · have hb : s.bucket day = {} := by rw [bucket, hdays]; rfl
        rw [bucket_perm hs.days s.write_perm, hb]
        rfl
  | cons entry days =>
      obtain ⟨first, b⟩ := entry
      let b' : Bucket := { b with reservations := erase id b.reservations }
      have hmem : (first, b) ∈ s.days := hdays ▸ List.mem_cons_self ..
      have hb : s.bucket first = b := lookup_eq_of_mem hs.days hmem
      have hn := hs.days
      rw [hdays] at hn
      have hupdated : Updated {} first b b' s.days (write ⟨(first, b') :: days⟩).days := by
        refine Updated.perm_right ?_ (write_perm _)
        rw [hdays]
        exact Updated.of_head hn
      refine ⟨write ⟨(first, b') :: days⟩, ?_, ?_, fun day => ?_⟩
      · simp only [releaseChallengeReservation, hs.read_bind, hdays]
        rfl
      · refine hs.shrink hupdated hmem ?_ (erase_sublist.length_le)
        exact ((erase_sublist.append_right _).map _).subperm
      · rw [bucket_updated hs.days hupdated]
        by_cases hday : day = first
        · subst hday
          rw [Function.update_self, hb]
        · rw [Function.update_of_ne hday]
          have hnone : ¬ Reserved id (s.bucket day).reservations := by
            intro h
            have hin := mem_bucket hs.days h
            have hone : Reserved id b.reservations := by
              simpa [firstDay, hdays] using hfirst (reserved_pending.mpr ⟨_, hin, h⟩)
            rw [hdays] at hin
            rcases List.mem_cons.mp hin with heq | hrest
            · exact hday (congrArg Prod.fst heq)
            · exact hs.reserved_once hdays hone _ hrest h
          rw [erase_eq_self hnone]

theorem pending_of_erased (hn : (keys s.days).Nodup) (hn' : (keys s'.days).Nodup)
    (h : ∀ day, s'.bucket day =
      { s.bucket day with reservations := erase id (s.bucket day).reservations }) :
    s'.pending ⊆ s.pending := by
  intro row hrow
  obtain ⟨⟨day, b⟩, hmem, hrow⟩ := List.mem_flatMap.mp hrow
  have hb : s'.bucket day = b := lookup_eq_of_mem hn' hmem
  rw [← hb, h day] at hrow
  have hold := erase_sublist.subset hrow
  exact List.mem_flatMap.mpr ⟨_, mem_bucket hn ⟨row, hold, rfl⟩, hold⟩

/-- What is released is not pending any more. -/
theorem not_reserved_of_erased (hn : (keys s'.days).Nodup) (h : ∀ day, s'.bucket day =
    { s.bucket day with reservations := erase id (s.bucket day).reservations }) :
    ¬ Reserved id s'.pending := by
  intro hres
  obtain ⟨⟨day, b⟩, hmem, hres⟩ := reserved_pending.mp hres
  have hb : s'.bucket day = b := lookup_eq_of_mem hn hmem
  rw [← hb, h day] at hres
  exact not_reserved_erase hres

end Envelope

/-! ### One step -/

namespace EnvelopeOp

variable {bound : ChallengeLimits} {s : Envelope} {day : ℕ} {id : String}

theorem reserve_step (hs : s.Sound bound) {input : ReserveInput}
    (h : (reserve day input).Served bound s) :
    ((reserve day input).run s).2.Sound bound ∧ (reserve day input).Lawful s := by
  obtain ⟨hid, hwhole, hwithin⟩ := h
  cases hrun : s.reserveChallengeSpend day input with
  | error e =>
      have hout : (reserve day input).run s = (.error e, s) := by simp [run, hrun, settle]
      simp only [Lawful, hout]
      exact ⟨hs, .inl trivial⟩
  | ok out =>
      obtain ⟨report, s'⟩ := out
      have hout : (reserve day input).run s = (.ok report, s') := by simp [run, hrun, settle]
      simp only [Lawful, hout]
      rcases Envelope.reserve_cases hs hid hrun with ⟨-, rfl⟩ |
        ⟨rfl, hamount, hnew, limits, hlimits, hpending, hproblem, hglobal, rfl⟩
      · exact ⟨hs.write, .inl (Envelope.bucket_perm hs.days s.write_perm)⟩
      · let b' : Bucket := { s.bucket day with reservations := put input.row (s.bucket day).reservations }
        have hfresh : ¬ Reserved input.id (s.bucket day).reservations := by
          intro hres
          obtain ⟨row, hrow, hrid⟩ := hres
          exact hnew (Envelope.reserved_iff_ids.mp ⟨_, Envelope.mem_bucket hs.days ⟨row, hrow, hrid⟩,
            row, List.mem_append_left _ hrow, hrid⟩)
        have hupdated : Updated {} day (s.bucket day) b' s.days (s.setBucket day b').write.days :=
          (Envelope.setBucket_updated hs.days b').perm_right (Envelope.write_perm _)
        have hcharges : b'.charges.Perm (input.row.charge :: (s.bucket day).charges) := by
          rw [Envelope.charges_reserve (s.bucket day) hid hfresh, Bucket.charges, Bucket.rows, List.map_append]
          exact List.perm_middle
        have hcast : (input.row.amountWei : ℤ) = input.amountWei := Int.toNat_of_nonneg hamount.le
        have htotal : b'.total = input.row.amountWei + (s.bucket day).total := by
          rw [Bucket.total_eq, Bucket.total_eq, (hcharges.map _).sum_eq]
          rfl
        have htotalOf : ∀ p, b'.totalOf p =
            (if input.problemId = p then input.row.amountWei else 0) + (s.bucket day).totalOf p := by
          intro p
          rw [Bucket.totalOf_eq, Bucket.totalOf_eq, ((hcharges.filter _).map _).sum_eq, List.filter_cons]
          by_cases hp : input.problemId = p <;> simp [Row.charge, ReserveInput.row, hp]
        have hnone : s.pending = [] := by
          rw [limits_pending hlimits hwhole] at hpending
          simp only [JsNumber.le, decide_eq_false_iff_not, not_le] at hpending
          exact List.length_eq_zero_iff.mp (Nat.lt_one_iff.mp (by exact_mod_cast hpending))
        have hbounds : limits.globalDayWei ≤ bound.globalDayWei ∧
            limits.perProblemDayWei ≤ bound.perProblemDayWei := by
          simpa only [ReserveInput.Within, hlimits] using hwithin
        have hday : (b'.total : ℤ) ≤ limits.globalDayWei := by
          rw [htotal]
          push_cast
          rw [hcast]
          omega
        have hproblemDay : (b'.totalOf input.problemId : ℤ) ≤ limits.perProblemDayWei := by
          rw [htotalOf, if_pos rfl]
          push_cast
          rw [hcast]
          omega
        have heffect := Envelope.bucket_updated hs.days hupdated
        constructor
        · refine hs.grow hupdated hcharges ?_ hnone hid hnew (by omega) (fun p => ?_)
          · simp only [b', put_new input.row hid hfresh, List.length_append, List.length_singleton]
            exact le_refl _
          · by_cases hp : input.problemId = p
            · subst hp
              omega
            · have hold := hs.totalOf_bucket day (by omega) p
              rw [htotalOf, if_neg hp, Nat.zero_add]
              exact hold
        · refine .inr ⟨rfl, limits, hlimits, ?_, ?_, ?_⟩
          · rw [← put_new input.row hid hfresh]
            exact heffect
          · rw [heffect, Function.update_self]
            exact hday
          · rw [heffect, Function.update_self]
            exact hproblemDay

theorem finalize_step (receipt : Option FinalizedReceipt) (hs : s.Sound bound)
    (h : (finalize id receipt).Served bound s) :
    ((finalize id receipt).run s).2.Sound bound ∧ (finalize id receipt).Lawful s := by
  cases receipt with
  | none =>
      have hout : (finalize id none).run s = (.error .receiptRequired, s) := rfl
      simp only [Lawful, hout]
      exact ⟨hs, fun _ _ hr => absurd hr (by simp), fun _ => trivial⟩
  | some receipt =>
      have hrun : s.finalizeChallengeSpend id (some receipt) =
          (Envelope.finalizeDays id receipt s.days).map
            (fun r => (.committed r.1, Envelope.write ⟨r.2⟩)) := by
        simp only [Envelope.finalizeChallengeSpend, hs.read_bind]
        cases Envelope.finalizeDays id receipt s.days <;> rfl
      rcases Envelope.finalizeDays_spec h receipt s.days with
        ⟨pre, day, b, post, row, hdays, hrow, rfl, hloop⟩ | ⟨hloop, entry, hentry, hspent⟩ | ⟨hloop, hno⟩
      · let b' := b.commit row.id row receipt
        have hmem : (day, b) ∈ s.days := by simp [hdays]
        have hb : s.bucket day = b := lookup_eq_of_mem hs.days hmem
        have hres : Reserved row.id s.pending := Envelope.reserved_pending.mpr ⟨_, hmem, row, hrow, rfl⟩
        have hspent := hs.not_spent hres _ hmem
        have hout : (finalize row.id (some receipt)).run s =
            (.ok (.committed false), Envelope.write ⟨pre ++ (day, b') :: post⟩) := by
          simp [run, hrun, hloop, settle, Except.map, b']
        have hupdated : Updated {} day b b' s.days (Envelope.write ⟨pre ++ (day, b') :: post⟩).days := by
          refine Updated.perm_right ?_ (Envelope.write_perm _)
          have hn := hs.days
          rw [hdays] at hn ⊢
          exact Updated.of_append hn
        simp only [Lawful, hout]
        constructor
        · refine hs.shrink hupdated hmem ?_ erase_sublist.length_le
          exact (Envelope.charges_commit receipt h (hs.bucket_ids hmem) hrow hspent).subperm
        · refine ⟨fun _ r hr => ⟨trivial, day, row, hb.symm ▸ hrow, rfl, ?_⟩, ?_⟩
          · obtain rfl : receipt = r := by simpa using hr
            rw [Envelope.bucket_updated hs.days hupdated, hb, ← Envelope.commit_eq receipt h hspent]
          · rintro (hnot | hnone)
            · exact absurd hres hnot
            · cases hnone
      · have hout : (finalize id (some receipt)).run s = (.ok (.committed true), s.write) := by
          simp [run, hrun, hloop, settle, Except.map]
        simp only [Lawful, hout]
        exact ⟨hs.write, fun hres => absurd hspent (hs.not_spent hres entry hentry),
          fun _ => Envelope.bucket_perm hs.days s.write_perm⟩
      · have hout : (finalize id (some receipt)).run s = (.error .noDurableReservation, s) := by
          simp [run, hrun, hloop, settle, Except.map]
        simp only [Lawful, hout]
        refine ⟨hs, fun hres => ?_, fun _ => trivial⟩
        obtain ⟨entry, hentry, hres⟩ := Envelope.reserved_pending.mp hres
        exact absurd hres (hno entry hentry)

theorem release_step (hs : s.Sound bound) (h : (release id).Served bound s) :
    ((release id).run s).2.Sound bound ∧ (release id).Lawful s := by
  obtain ⟨hid, hdays⟩ := h
  have hpending : decide (s.days ≠ []) = decide (Reserved id s.pending) := by
    rcases hdays with hdays | hfirst
    · have hnone : s.pending = [] := by rw [Envelope.pending, hdays]; rfl
      simp [hdays, hnone, Reserved]
    · cases hdays : s.days with
      | nil => simp [Envelope.firstDay, hdays, Reserved] at hfirst
      | cons entry days =>
          have hres : Reserved id s.pending := Envelope.reserved_pending.mpr
            ⟨entry, hdays ▸ List.mem_cons_self .., by simpa [Envelope.firstDay, hdays] using hfirst⟩
          simp [hres]
  have hfirst : Reserved id s.pending → Reserved id s.firstDay := by
    rcases hdays with hdays | hfirst
    · intro hres
      rw [Envelope.pending, hdays] at hres
      obtain ⟨row, hrow, -⟩ := hres
      cases hrow
    · exact fun _ => hfirst
  obtain ⟨s', hrun, hsound, hbucket⟩ := Envelope.release_spec hs hfirst
  rw [hpending] at hrun
  have hout : (release id).run s = (.ok (.released (decide (Reserved id s.pending))), s') := by
    simp only [run, hrun, settle]
  simp only [Lawful, hout]
  exact ⟨hsound, trivial, hbucket⟩

theorem abandon_spec (hs : s.Sound bound) (hfirst : Reserved id s.pending → Reserved id s.firstDay) :
    (s.abandonIntent id).2.Sound bound ∧ ¬ Reserved id (s.abandonIntent id).2.pending ∧
      (Reserved id s.pending → (s.abandonIntent id).2.pending = []) := by
  obtain ⟨s', hrun, hsound, hbucket⟩ := Envelope.release_spec hs hfirst
  have hout : s.abandonIntent id = (.error .operationFailed, s') := by
    simp only [Envelope.abandonIntent, hrun]
  have hfree := Envelope.not_reserved_of_erased hsound.days hbucket
  rw [hout]
  refine ⟨hsound, hfree, ?_⟩
  rintro ⟨row, hrow, hid⟩
  rw [List.eq_nil_iff_forall_not_mem]
  intro other hother
  have hold := Envelope.pending_of_erased hs.days hsound.days hbucket hother
  -- at most one reservation was pending, and it was that of `id`
  have hone : other = row := by
    have hlen := hs.pending
    match hpending : s.pending, hlen with
    | [], _ => simp [hpending] at hrow
    | [single], _ =>
        rw [hpending, List.mem_singleton] at hold hrow
        rw [hold, hrow]
  exact hfree ⟨other, hother, by rw [hone, hid]⟩

theorem intent_step (hs : s.Sound bound) {outcome : IntentOutcome}
    (h : (intent id outcome).Served bound s) :
    ((intent id outcome).run s).2.Sound bound ∧ (intent id outcome).Lawful s := by
  obtain ⟨hid, hfirst⟩ := h
  cases outcome with
  | fails =>
      have hout : (intent id .fails).run s = s.abandonIntent id := by
        simp only [run, Envelope.runChallengeActionIntent, hs.read]
      obtain ⟨hsound, hfree, hempty⟩ := abandon_spec hs (hfirst rfl)
      simp only [Lawful, hout]
      exact ⟨hsound, fun _ => hfree, fun _ => hempty⟩
  | returns =>
      have hout : (intent id .returns).run s = (.ok .performed, s) := by
        simp only [run, Envelope.runChallengeActionIntent, hs.read]
      simp only [Lawful, hout]
      exact ⟨hs, fun h => h.resolve_left (by simp), fun h => absurd h (by simp)⟩
  | marks journalPath signedTransactionHash thenFails =>
      let journal : ActionIntent := .journalDurable journalPath signedTransactionHash
      rcases Envelope.markDays_spec hid journal s.days with
        ⟨pre, day, b, post, hdays, hres, hloop⟩ | ⟨hloop, hno⟩
      · let b' : Bucket := { b with reservations := mark id journal b.reservations }
        have hmem : (day, b) ∈ s.days := by simp [hdays]
        have hout : ((intent id (.marks journalPath signedTransactionHash thenFails)).run s).2 =
            Envelope.write ⟨pre ++ (day, b') :: post⟩ := by
          simp only [run, Envelope.runChallengeActionIntent, hs.read]
          rw [hloop]
        have hupdated : Updated {} day b b' s.days (Envelope.write ⟨pre ++ (day, b') :: post⟩).days := by
          refine Updated.perm_right ?_ (Envelope.write_perm _)
          have hn := hs.days
          rw [hdays] at hn ⊢
          exact Updated.of_append hn
        have hcharges : b'.charges = b.charges := by
          simp only [Bucket.charges, Bucket.rows, b', List.map_append, mark_charges]
        simp only [Lawful, hout]
        refine ⟨hs.shrink hupdated hmem (hcharges ▸ List.Subperm.refl _) ?_, ?_, fun h => absurd h (by simp)⟩
        · simp only [b', mark, List.length_map]
          exact le_refl _
        · intro h
          exact absurd (Envelope.reserved_pending.mpr ⟨_, hmem, hres⟩) (h.resolve_left (by simp))
      · have hnone : ¬ Reserved id s.pending := by
          intro hres
          obtain ⟨entry, hentry, hres⟩ := Envelope.reserved_pending.mp hres
          exact hno entry hentry hres
        have hout : (intent id (.marks journalPath signedTransactionHash thenFails)).run s =
            s.abandonIntent id := by
          simp only [run, Envelope.runChallengeActionIntent, hs.read]
          rw [hloop]
        obtain ⟨hsound, hfree, -⟩ := abandon_spec hs (fun hres => absurd hres hnone)
        simp only [Lawful, hout]
        exact ⟨hsound, fun _ => hfree, fun h => absurd h (by simp)⟩

/-- One served operation. -/
theorem step_lawful (hs : s.Sound bound) {op : EnvelopeOp} (h : op.Served bound s) :
    (op.run s).2.Sound bound ∧ op.Lawful s := by
  cases op with
  | reserve day input => exact reserve_step hs h
  | finalize id receipt => exact finalize_step receipt hs h
  | release id => exact release_step hs h
  | intent id outcome => exact intent_step hs h

end EnvelopeOp

/-! ### Runs -/

/-- The file under any sequence of operations. -/
def spendingEnvelope : System Envelope EnvelopeOp where
  init s := s = {}
  step s op := some (op.run s).2

theorem sound_of_reachable {bound : ChallengeLimits} {s : Envelope}
    (h : spendingEnvelope.Reachable (fun s op => op.Served bound s) s) : s.Sound bound := by
  refine h.invariant ?_ ?_
  · rintro s rfl
    exact Envelope.sound_empty
  · intro s op s' _ hs hserved hstep
    obtain rfl : (op.run s).2 = s' := by simpa [spendingEnvelope] using hstep
    exact (EnvelopeOp.step_lawful hs hserved).1

namespace Sample

end Sample

end P42Prizes.Agent
