import P42Prizes.Idempotency
import P42Prizes.NonceLaws

/-! # Idempotent requests happen once

The keys of the records are distinct.  A record that was completed is there until its retention is over
(`Sound.kept`), so that nothing can be reserved or completed under its key, and every request with the key
is answered from it.  A pending record is the one that the latest reservation of its key has made, and
that reservation has not been released (`Sound.pending`).  Both are statements about the updates so far,
the last one first. -/

namespace P42Prizes.Portal

open Reverting
open Transition
open WalletNonce (modifyFirst modifyFirst_eq_map)

variable {σ ρ α : Type} {store : Store σ ρ}

/-! ### Lists of records -/

/-- Records have distinct keys. -/
def Distinct (l : List (IdempotencyRecord ρ)) : Prop := (l.map (fun r => (r.route, r.key))).Nodup

section Records

variable {l : List (IdempotencyRecord ρ)} {r r' : IdempotencyRecord ρ} {route key : String}

theorem isOf_iff : isOf route key r = true ↔ r.route = route ∧ r.key = key := by
  simp [isOf]

theorem Distinct.unique (h : Distinct l) (hr : r ∈ l) (hr' : r' ∈ l) (hroute : r.route = r'.route)
    (hkey : r.key = r'.key) : r = r' :=
  List.inj_on_of_nodup_map h hr hr' (Prod.ext hroute hkey)

theorem Distinct.sublist {l' : List (IdempotencyRecord ρ)} (h : Distinct l) (hsub : l'.Sublist l) :
    Distinct l' := List.Nodup.sublist (hsub.map _) h

theorem Distinct.snoc (h : Distinct l) (hnew : l.find? (isOf r.route r.key) = none) :
    Distinct (l ++ [r]) := by
  unfold Distinct
  rw [List.map_append, List.map_singleton, List.nodup_append]
  refine ⟨h, List.nodup_singleton _, ?_⟩
  intro pair hpair other hother heq
  obtain ⟨r', hr', rfl⟩ := List.mem_map.mp hpair
  rw [List.mem_singleton] at hother
  rw [hother] at heq
  have := List.find?_eq_none.mp hnew r' hr'
  exact this (isOf_iff.mpr ⟨congrArg Prod.fst heq, congrArg Prod.snd heq⟩)

/-- A record is changed in place. -/
theorem mem_modify {f : IdempotencyRecord ρ → IdempotencyRecord ρ} (h : Distinct l) :
    r ∈ modifyFirst (isOf route key) f l ↔
      (r ∈ l ∧ isOf route key r = false) ∨ ∃ r' ∈ l, isOf route key r' = true ∧ f r' = r := by
  rw [modifyFirst_eq_map h (n := (route, key))
    (fun a _ ha => Prod.ext (isOf_iff.mp ha).1 (isOf_iff.mp ha).2), List.mem_map]
  constructor
  · rintro ⟨r', hr', heq⟩
    by_cases hof : isOf route key r' = true
    · rw [if_pos hof] at heq
      exact .inr ⟨r', hr', hof, heq⟩
    · rw [if_neg hof] at heq
      exact .inl ⟨heq ▸ hr', by rw [← heq]; exact Bool.eq_false_iff.mpr hof⟩
  · rintro (⟨hr, hof⟩ | ⟨r', hr', hof, heq⟩)
    · exact ⟨r, hr, by rw [hof]; rfl⟩
    · exact ⟨r', hr', by rw [if_pos hof]; exact heq⟩

theorem Distinct.modify {f : IdempotencyRecord ρ → IdempotencyRecord ρ} (h : Distinct l)
    (hf : ∀ r, (f r).route = r.route ∧ (f r).key = r.key) :
    Distinct (modifyFirst (isOf route key) f l) := by
  unfold Distinct
  rw [WalletNonce.map_modifyFirst (fun r => Prod.ext (hf r).1 (hf r).2)]
  exact h

/-- What is left behind a release is not what it was to remove. -/
theorem not_of_mem_eraseP {p : IdempotencyRecord ρ → Bool} (route key : String) (h : Distinct l)
    (hp : ∀ r, p r = true → isOf route key r = true) (hr : r ∈ l.eraseP p) : p r = false := by
  by_contra hof
  rw [Bool.not_eq_false] at hof
  induction l with
  | nil => cases hr
  | cons a l ih =>
      obtain ⟨hnew, hrest⟩ := List.nodup_cons.mp h
      by_cases ha : p a = true
      · rw [List.eraseP_cons_of_pos ha] at hr
        obtain ⟨hroute, hkey⟩ := isOf_iff.mp (hp a ha)
        obtain ⟨hroute', hkey'⟩ := isOf_iff.mp (hp r hof)
        exact hnew (List.mem_map.mpr ⟨r, hr, Prod.ext (hroute'.trans hroute.symm) (hkey'.trans hkey.symm)⟩)
      · rw [List.eraseP_cons_of_neg ha] at hr
        rcases List.mem_cons.mp hr with rfl | hr
        · exact ha hof
        · exact ih hrest hr

end Records

/-! ### What each update does -/

section Spec

variable {s t : Snapshot σ ρ} {route key hash id : String} {now before behind : ℕ}
  {outcome : ReservationOutcome ρ} {reservation : Reservation} {status : ρ → ℕ}
  {operation : Operation σ ρ} {result : Committed ρ}

/-- An update changes the maintained state, and what it leaves is maintained again. -/
theorem updatePortalState_eq_ok {mutator : Snapshot σ ρ → Except PortalError (α × Snapshot σ ρ)} {a : α}
    (h : updatePortalState store before behind mutator s = .ok (a, t)) :
    ∃ u, mutator (maintainPortalState store before s) = .ok (a, u) ∧
      t = maintainPortalState store behind u := by
  simp only [updatePortalState, bind_eq_ok, revertIf_eq_ok, pure_eq_ok, Prod.mk.injEq] at h
  obtain ⟨⟨a', u⟩, hmutator, -, -, rfl, rfl⟩ := h
  exact ⟨u, hmutator, rfl⟩

/-- What a request meets under its key. -/
inductive Begun (store : Store σ ρ) (route key hash id : String) (now : ℕ) (s : Snapshot σ ρ) :
    ReservationOutcome ρ → Snapshot σ ρ → Prop
  | fresh (absent : s.idempotency.find? (isOf route key) = none) :
      Begun store route key hash id now s .reserved { s with
        idempotency := s.idempotency ++ [{
          key := key
          route := route
          requestHash := hash
          state := .pending
          createdAt := now
          reservationId := some id
          leaseExpiresAt := some (now + store.idempotencyLeaseMs) }] }
  | conflict (existing : IdempotencyRecord ρ) (found : s.idempotency.find? (isOf route key) = some existing)
      (differs : existing.requestHash ≠ hash) :
      Begun store route key hash id now s (.conflict existing.requestHash) { s with
        rest := store.appendPortalEvent (.conflict key route hash existing.requestHash) s.rest }
  | replay (existing : IdempotencyRecord ρ) (status : ℕ)
      (found : s.idempotency.find? (isOf route key) = some existing) (same : existing.requestHash = hash)
      (completed : existing.state = .completed) (stored : existing.status = some status) :
      Begun store route key hash id now s (.replay existing.response status) { s with
        rest := store.appendPortalEvent (.replayed key route hash status) s.rest }
  | pending (existing : IdempotencyRecord ρ) (seconds : ℕ)
      (found : s.idempotency.find? (isOf route key) = some existing) (waiting : existing.state = .pending) :
      Begun store route key hash id now s (.pending seconds) s
  | renewed (existing : IdempotencyRecord ρ)
      (found : s.idempotency.find? (isOf route key) = some existing) (same : existing.requestHash = hash)
      (waiting : existing.state = .pending) :
      Begun store route key hash id now s .reserved { s with
        idempotency := modifyFirst (isOf route key) (renew store id now) s.idempotency }

theorem begin_cases (h : beginIdempotentRequest store route key hash id now s = .ok (outcome, t)) :
    Begun store route key hash id now s outcome t := by
  unfold beginIdempotentRequest at h
  split at h
  · next habsent =>
      simp only [bind_eq_ok, revertIf_eq_ok, pure_eq_ok, Prod.mk.injEq] at h
      obtain ⟨-, -, rfl, rfl⟩ := h
      exact .fresh habsent
  · next existing hfound =>
      by_cases hhash : existing.requestHash ≠ hash
      · rw [if_pos hhash] at h
        obtain ⟨rfl, rfl⟩ := Prod.mk.inj (Except.ok.inj h)
        exact .conflict existing hfound hhash
      rw [if_neg hhash] at h
      have hsame : existing.requestHash = hash := not_not.mp hhash
      cases hstate : existing.state
      · simp only [hstate] at h
        split at h
        · obtain ⟨rfl, rfl⟩ := Prod.mk.inj (Except.ok.inj h)
          exact .pending existing _ hfound hstate
        · obtain ⟨rfl, rfl⟩ := Prod.mk.inj (Except.ok.inj h)
          exact .renewed existing hfound hsame hstate
      · simp only [hstate] at h
        split at h
        · cases h
        · next status hstatus =>
            obtain ⟨rfl, rfl⟩ := Prod.mk.inj (Except.ok.inj h)
            exact .replay existing status hfound hsame hstate hstatus

/-- An operation is completed under the pending record of its reservation. -/
theorem complete_cases
    (h : completeIdempotentOperation store reservation status operation s = .ok (result, t)) :
    ∃ existing rest, s.idempotency.find? (isOf reservation.route reservation.key) = some existing ∧
      existing.state = .pending ∧ existing.requestHash = reservation.requestHash ∧
      existing.reservationId = some reservation.reservationId ∧
      operation s.rest = .ok (result.response, rest) ∧ result.status = status result.response ∧
      result.createdAt = existing.createdAt ∧
      t = { idempotency := modifyFirst (isOf reservation.route reservation.key)
              (settle result.status result.response) s.idempotency
            rest := store.appendPortalEvent (.stored reservation.key reservation.route
              reservation.requestHash result.status) rest } := by
  unfold completeIdempotentOperation at h
  split at h
  · cases h
  · next existing hfound =>
      split at h
      · cases h
      · next hmatch =>
          simp only [not_or, ne_eq, not_not] at hmatch
          obtain ⟨hstate, hhash, hid⟩ := hmatch
          simp only [bind_eq_ok, pure_eq_ok, Prod.mk.injEq] at h
          obtain ⟨⟨response, rest⟩, hoperation, rfl, rfl⟩ := h
          exact ⟨existing, rest, hfound, hstate, hhash, hid, hoperation, rfl, rfl, rfl⟩

end Spec

/-! ### What is known of the records -/

/-- The record that a committed operation leaves. -/
def Committed.record (reservation : Reservation) (result : Committed ρ) : IdempotencyRecord ρ where
  key := reservation.key
  route := reservation.route
  requestHash := reservation.requestHash
  state := .completed
  status := some result.status
  response := some result.response
  createdAt := result.createdAt

/-- The update has reserved the key. -/
def reservedAt (route key : String) : Update ρ → Bool
  | .began route' key' _ _ _ _ .reserved => route' = route && key' = key
  | _ => false

/-- The reservation is the latest one of its key, made for this body at this time. -/
def Latest (store : Store σ ρ) (reservation : Reservation) (createdAt : ℕ) (updates : List (Update ρ)) :
    Prop :=
  ∃ body before, updates.find? (reservedAt reservation.route reservation.key) =
      some (.began reservation.route reservation.key body reservation.reservationId createdAt before
        .reserved) ∧ requestHash store body = reservation.requestHash

/-- The record of a reservation. -/
def Reservation.record (store : Store σ ρ) (reservation : Reservation) (createdAt : ℕ) :
    IdempotencyRecord ρ where
  key := reservation.key
  route := reservation.route
  requestHash := reservation.requestHash
  state := .pending
  createdAt := createdAt
  reservationId := some reservation.reservationId
  leaseExpiresAt := some (createdAt + store.idempotencyLeaseMs)

structure Sound (store : Store σ ρ) (w : World σ ρ) : Prop where
  distinct : Distinct w.snapshot.idempotency
  kept : ∀ reservation before behind result,
    Update.committed reservation before behind result ∈ w.updates →
    w.clock ≤ result.createdAt + store.idempotencyRetentionMs →
    result.record reservation ∈ w.snapshot.idempotency
  pending : ∀ r ∈ w.snapshot.idempotency, r.state = .pending →
    ∃ reservation : Reservation, r = reservation.record store r.createdAt ∧
      Update.released reservation ∉ w.updates ∧ Latest store reservation r.createdAt w.updates

/-- What is to be shown of one update behind those before it. -/
def Allowed (store : Store σ ρ) (earlier : List (Update ρ)) : Update ρ → Prop
  | .committed reservation before _ result =>
      (∀ reservation' before' behind' result',
        Update.committed reservation' before' behind' result' ∈ earlier →
        reservation'.route = reservation.route → reservation'.key = reservation.key →
        result'.createdAt + store.idempotencyRetentionMs < before) ∧
      Latest store reservation result.createdAt earlier ∧ Update.released reservation ∉ earlier ∧
      before < result.createdAt + store.idempotencyLeaseMs
  | .began route key body _ _ before outcome =>
      ∀ reservation before' behind' result,
        Update.committed reservation before' behind' result ∈ earlier →
        reservation.route = route → reservation.key = key →
        before ≤ result.createdAt + store.idempotencyRetentionMs →
        outcome = if requestHash store body = reservation.requestHash
          then .replay (some result.response) result.status
          else .conflict reservation.requestHash
  | _ => True

def Lawful (store : Store σ ρ) : List (Update ρ) → Prop
  | [] => True
  | u :: earlier => Allowed store earlier u ∧ Lawful store earlier

section Steps

variable {w w' : World σ ρ} {before behind : ℕ} {r : IdempotencyRecord ρ}

theorem retained_settled {reservation : Reservation} {result : Committed ρ} {now : ℕ} :
    retained store now (result.record reservation) = true ↔
      now ≤ result.createdAt + store.idempotencyRetentionMs := decide_eq_true_iff

theorem retained_reserved {reservation : Reservation} {createdAt now : ℕ} :
    retained store now (reservation.record store createdAt) = true ↔
      now < createdAt + store.idempotencyLeaseMs := decide_eq_true_iff

theorem mem_maintain {s : Snapshot σ ρ} {now : ℕ} :
    r ∈ (maintainPortalState store now s).idempotency ↔ r ∈ s.idempotency ∧ retained store now r = true :=
  List.mem_filter

theorem Distinct.maintain {s : Snapshot σ ρ} {now : ℕ} (h : Distinct s.idempotency) :
    Distinct (maintainPortalState store now s).idempotency := h.sublist List.filter_sublist

/-- What is found under the key of a record is that record. -/
theorem Distinct.find {l : List (IdempotencyRecord ρ)} {existing : IdempotencyRecord ρ} (h : Distinct l)
    (hr : r ∈ l) (hfound : l.find? (isOf r.route r.key) = some existing) : existing = r := by
  obtain ⟨hroute, hkey⟩ := isOf_iff.mp (List.find?_some hfound)
  exact h.unique (List.mem_of_find?_eq_some hfound) hr hroute hkey

/-- As the clock goes on without an update, nothing is lost. -/
theorem Sound.wait (h : Sound store w) (hclock : w.clock ≤ behind) :
    Sound store { w with clock := behind } where
  distinct := h.distinct
  kept reservation b c result hmem hnow := h.kept reservation b c result hmem (hclock.trans hnow)
  pending := h.pending

/-- The record of a pending key is of a reservation that has not been given back. -/
def Reserved (store : Store σ ρ) (r : IdempotencyRecord ρ) (updates : List (Update ρ)) : Prop :=
  ∃ reservation : Reservation, r = reservation.record store r.createdAt ∧
    Update.released reservation ∉ updates ∧ Latest store reservation r.createdAt updates

/-- A reservation stands as long as its key is not reserved again and it is not given back. -/
theorem Reserved.cons {updates : List (Update ρ)} {u : Update ρ} (h : Reserved store r updates)
    (hlatest : reservedAt r.route r.key u = false)
    (hreleased : ∀ reservation : Reservation, r = reservation.record store r.createdAt →
      u ≠ .released reservation) : Reserved store r (u :: updates) := by
  obtain ⟨reservation, hr, hnot, body, before, hfind, hhash⟩ := h
  refine ⟨reservation, hr, ?_, body, before, ?_, hhash⟩
  · rw [List.mem_cons, not_or]
    exact ⟨(hreleased reservation hr).symm, hnot⟩
  · have hkey : reservedAt reservation.route reservation.key u = false := by
      rw [hr] at hlatest
      exact hlatest
    rw [List.find?_cons_of_neg (by rw [hkey]; exact Bool.false_ne_true)]
    exact hfind

/-- A committed update keeps what is known when completed records stay and pending ones are reserved. -/
theorem Sound.next (h : Sound store w) {u : Snapshot σ ρ} {note : Update ρ}
    (hforward : w.forward before behind) (hdistinct : Distinct u.idempotency)
    (hkept : ∀ r ∈ (maintainPortalState store before w.snapshot).idempotency, r.state = .completed →
      r ∈ u.idempotency)
    (hnote : ∀ reservation b c result, note = .committed reservation b c result →
      result.record reservation ∈ u.idempotency)
    (hpending : ∀ r ∈ u.idempotency, r.state = .pending → Reserved store r (note :: w.updates)) :
    Sound store
      { snapshot := maintainPortalState store behind u, clock := behind, updates := note :: w.updates } where
  distinct := hdistinct.maintain
  kept reservation b c result hmem hnow := by
    refine mem_maintain.mpr ⟨?_, retained_settled.mpr hnow⟩
    rcases List.mem_cons.mp hmem with heq | hmem
    · exact hnote reservation b c result heq.symm
    · have hbefore : before ≤ result.createdAt + store.idempotencyRetentionMs := hforward.2.trans hnow
      refine hkept _ (mem_maintain.mpr ⟨?_, retained_settled.mpr hbefore⟩) rfl
      exact h.kept reservation b c result hmem (hforward.1.trans hbefore)
  pending r hr hstate := hpending r (mem_maintain.mp hr).1 hstate

/-- The record of a committed operation is what a later request meets, until its retention is over. -/
theorem Sound.meets (h : Sound store w) (hforward : w.clock ≤ before) {reservation : Reservation}
    {b c : ℕ} {result : Committed ρ} (hmem : Update.committed reservation b c result ∈ w.updates)
    (hnow : before ≤ result.createdAt + store.idempotencyRetentionMs) :
    result.record reservation ∈ (maintainPortalState store before w.snapshot).idempotency :=
  mem_maintain.mpr ⟨h.kept reservation b c result hmem (hforward.trans hnow), retained_settled.mpr hnow⟩

theorem start_sound {route key id : String} {body : List UInt8} {now : ℕ}
    {outcome : ReservationOutcome ρ} {t : Snapshot σ ρ} (h : Sound store w)
    (hforward : w.forward before behind) (hid : some id ∉ w.updates.map Update.reservationId)
    (hupdate : updatePortalState store before behind
      (beginIdempotentRequest store route key (requestHash store body) id now) w.snapshot =
        .ok (outcome, t)) :
    Sound store { snapshot := t, clock := behind
                  updates := .began route key body id now before outcome :: w.updates } ∧
      Allowed store w.updates (.began route key body id now before outcome) := by
  obtain ⟨u, hbegin, rfl⟩ := updatePortalState_eq_ok hupdate
  have hdistinct : Distinct (maintainPortalState store before w.snapshot).idempotency :=
    h.distinct.maintain
  have hold : ∀ r ∈ (maintainPortalState store before w.snapshot).idempotency, r.state = .pending →
      reservedAt r.route r.key (.began route key body id now before outcome) = false →
      Reserved store r (.began route key body id now before outcome :: w.updates) := by
    intro r hr hstate hother
    exact Reserved.cons (h.pending r (mem_maintain.mp hr).1 hstate) hother (fun _ _ => nofun)
  have hother : ∀ r : IdempotencyRecord ρ, isOf route key r = false →
      reservedAt r.route r.key (.began route key body id now before outcome) = false := by
    intro r hr
    unfold reservedAt
    split
    · next route' key' _ _ _ _ heq =>
        simp only [Update.began.injEq] at heq
        obtain ⟨rfl, rfl, -⟩ := heq
        rw [← hr]
        simp [isOf, eq_comm]
    · rfl
  have hfresh : ∀ reservation : Reservation, reservation.reservationId = id →
      Update.released reservation ∉ w.updates := by
    rintro reservation rfl hmem
    exact hid (List.mem_map.mpr ⟨_, hmem, rfl⟩)
  have hnew : ∀ createdAt, now = createdAt → outcome = .reserved → ∀ r : IdempotencyRecord ρ,
      r = Reservation.record store ⟨key, route, requestHash store body, id⟩ createdAt →
      Reserved store r (.began route key body id now before outcome :: w.updates) := by
    rintro createdAt rfl rfl r rfl
    refine ⟨⟨key, route, requestHash store body, id⟩, rfl, ?_, body, before, ?_, rfl⟩
    · rw [List.mem_cons, not_or]
      exact ⟨nofun, hfresh _ rfl⟩
    · rw [List.find?_cons_of_pos (by simp [reservedAt])]
      rfl
  have hmeets : ∀ reservation b c result, Update.committed reservation b c result ∈ w.updates →
      reservation.route = route → reservation.key = key →
      before ≤ result.createdAt + store.idempotencyRetentionMs → ∀ existing,
      (maintainPortalState store before w.snapshot).idempotency.find? (isOf route key) = some existing →
      existing = result.record reservation := by
    rintro reservation b c result hmem rfl rfl hnow existing hfound
    exact hdistinct.find (h.meets hforward.1 hmem hnow) hfound
  cases begin_cases hbegin with
  | fresh habsent =>
      constructor
      · refine h.next hforward (hdistinct.snoc habsent) (fun r hr _ => List.mem_append_left _ hr) nofun ?_
        intro r hr hstate
        rcases List.mem_append.mp hr with hr | hr
        · exact hold r hr hstate (hother r (Bool.eq_false_iff.mpr (List.find?_eq_none.mp habsent r hr)))
        · exact hnew now rfl rfl r (List.mem_singleton.mp hr)
      · rintro reservation b c result hmem rfl rfl hnow
        have hthere := List.find?_eq_none.mp habsent _ (h.meets hforward.1 hmem hnow)
        exact absurd (isOf_iff.mpr ⟨rfl, rfl⟩) hthere
  | conflict existing hfound hdiffers =>
      constructor
      · refine h.next hforward hdistinct (fun r hr _ => hr) nofun ?_
        exact fun r hr hstate => hold r hr hstate rfl
      · intro reservation b c result hmem hroute hkey hnow
        obtain rfl := hmeets reservation b c result hmem hroute hkey hnow existing hfound
        have hother : requestHash store body ≠ reservation.requestHash := Ne.symm hdiffers
        rw [if_neg hother]
        rfl
  | replay existing status hfound hsame hcompleted hstored =>
      constructor
      · refine h.next hforward hdistinct (fun r hr _ => hr) nofun ?_
        exact fun r hr hstate => hold r hr hstate rfl
      · intro reservation b c result hmem hroute hkey hnow
        obtain rfl := hmeets reservation b c result hmem hroute hkey hnow existing hfound
        have hequal : requestHash store body = reservation.requestHash := hsame.symm
        rw [if_pos hequal]
        obtain rfl := Option.some.inj hstored
        rfl
  | pending existing seconds hfound hwaiting =>
      constructor
      · refine h.next hforward hdistinct (fun r hr _ => hr) nofun ?_
        exact fun r hr hstate => hold r hr hstate rfl
      · intro reservation b c result hmem hroute hkey hnow
        obtain rfl := hmeets reservation b c result hmem hroute hkey hnow existing hfound
        cases hwaiting
  | renewed existing hfound hsame hwaiting =>
      constructor
      · refine h.next hforward (hdistinct.modify fun r => ⟨rfl, rfl⟩) ?_ nofun ?_
        · intro r hr hstate
          refine (mem_modify hdistinct).mpr (.inl ⟨hr, ?_⟩)
          by_contra hof
          rw [Bool.not_eq_false] at hof
          obtain ⟨rfl, rfl⟩ := isOf_iff.mp hof
          obtain rfl := hdistinct.find hr hfound
          rw [hwaiting] at hstate
          cases hstate
        · intro r hr hstate
          rcases (mem_modify hdistinct).mp hr with ⟨hr, hof⟩ | ⟨r', hr', hof, rfl⟩
          · exact hold r hr hstate (hother r hof)
          · obtain ⟨rfl, rfl⟩ := isOf_iff.mp hof
            obtain rfl := hdistinct.find hr' hfound
            obtain ⟨reservation, hrecord, -⟩ := h.pending _ (mem_maintain.mp hr').1 hwaiting
            refine hnew now rfl rfl _ ?_
            rw [hrecord] at hsame ⊢
            simp only [renew, Reservation.record] at hsame ⊢
            rw [hsame]
      · intro reservation b c result hmem hroute hkey hnow
        obtain rfl := hmeets reservation b c result hmem hroute hkey hnow existing hfound
        cases hwaiting

theorem complete_sound {reservation : Reservation} {status : ρ → ℕ} {operation : Operation σ ρ}
    {result : Committed ρ} {t : Snapshot σ ρ} (h : Sound store w) (hforward : w.forward before behind)
    (hupdate : updatePortalState store before behind
      (completeIdempotentOperation store reservation status operation) w.snapshot = .ok (result, t)) :
    Sound store { snapshot := t, clock := behind
                  updates := .committed reservation before behind result :: w.updates } ∧
      Allowed store w.updates (.committed reservation before behind result) := by
  obtain ⟨u, hcomplete, rfl⟩ := updatePortalState_eq_ok hupdate
  have hdistinct : Distinct (maintainPortalState store before w.snapshot).idempotency :=
    h.distinct.maintain
  obtain ⟨existing, rest, hfound, hstate, hhash, hid, -, -, hcreated, rfl⟩ := complete_cases hcomplete
  have hmem := List.mem_of_find?_eq_some hfound
  obtain ⟨hroute, hkey⟩ := isOf_iff.mp (List.find?_some hfound)
  -- the pending record is the one of this reservation
  obtain ⟨reservation', hrecord, hreleased, hlatest⟩ := h.pending _ (mem_maintain.mp hmem).1 hstate
  have hsame : reservation' = reservation := by
    rw [hrecord] at hhash hid hroute hkey
    cases reservation
    cases reservation'
    simp only [Reservation.record] at hhash hid hroute hkey
    rw [hhash, hroute, hkey, Option.some.inj hid]
  subst hsame
  rw [← hcreated] at hrecord hlatest
  have hexisting : ∀ r ∈ (maintainPortalState store before w.snapshot).idempotency,
      isOf reservation'.route reservation'.key r = true → r = existing := by
    intro r hr hof
    obtain ⟨hroute', hkey'⟩ := isOf_iff.mp hof
    exact hdistinct.unique hr hmem (hroute'.trans hroute.symm) (hkey'.trans hkey.symm)
  constructor
  · refine h.next hforward (hdistinct.modify fun r => ⟨rfl, rfl⟩) ?_ ?_ ?_
    · intro r hr hcompleted
      refine (mem_modify hdistinct).mpr (.inl ⟨hr, ?_⟩)
      by_contra hof
      rw [Bool.not_eq_false] at hof
      rw [hexisting r hr hof, hstate] at hcompleted
      cases hcompleted
    · intro reservation b c result' heq
      simp only [Update.committed.injEq] at heq
      obtain ⟨rfl, -, -, rfl⟩ := heq
      refine (mem_modify hdistinct).mpr (.inr ⟨existing, hmem, isOf_iff.mpr ⟨hroute, hkey⟩, ?_⟩)
      rw [hrecord]
      rfl
    · intro r hr hpending
      rcases (mem_modify hdistinct).mp hr with ⟨hr, -⟩ | ⟨r', -, -, rfl⟩
      · exact Reserved.cons (h.pending r (mem_maintain.mp hr).1 hpending) rfl (fun _ _ => nofun)
      · cases hpending
  · refine ⟨?_, hlatest, hreleased, ?_⟩
    · intro reservation b c result' hcommitted hroute' hkey'
      by_contra hnow
      rw [Nat.not_lt] at hnow
      have hthere := h.meets hforward.1 hcommitted hnow
      have hdone := hexisting _ hthere (isOf_iff.mpr ⟨hroute', hkey'⟩)
      rw [← hdone] at hstate
      cases hstate
    · have hlease := (mem_maintain.mp hmem).2
      rw [hrecord] at hlease
      exact retained_reserved.mp hlease

theorem release_sound {reservation : Reservation} {t : Snapshot σ ρ} (h : Sound store w)
    (hforward : w.forward before behind)
    (hupdate : updatePortalState store before behind (releaseIdempotencyReservation reservation)
      w.snapshot = .ok ((), t)) :
    Sound store { snapshot := t, clock := behind, updates := .released reservation :: w.updates } := by
  obtain ⟨u, hrelease, rfl⟩ := updatePortalState_eq_ok hupdate
  obtain ⟨-, rfl⟩ := Prod.mk.inj (Except.ok.inj hrelease)
  have hdistinct : Distinct (maintainPortalState store before w.snapshot).idempotency :=
    h.distinct.maintain
  refine h.next hforward (hdistinct.sublist List.eraseP_sublist) ?_ nofun ?_
  · intro r hr hcompleted
    refine (List.mem_eraseP_of_neg ?_).mpr hr
    simp [hcompleted]
  · intro r hr hpending
    refine Reserved.cons (h.pending r (mem_maintain.mp (List.mem_of_mem_eraseP hr)).1 hpending) rfl ?_
    intro reservation' hrecord heq
    obtain rfl : reservation = reservation' := by
      simp only [Update.released.injEq] at heq
      exact heq
    have hleft := not_of_mem_eraseP reservation.route reservation.key hdistinct
      (fun r hr => by simp only [Bool.and_eq_true] at hr; exact hr.1.1) hr
    rw [hrecord] at hleft
    simp [Reservation.record, isOf] at hleft

theorem other_sound {operation : Operation σ Unit} {t : Snapshot σ ρ} (h : Sound store w)
    (hforward : w.forward before behind)
    (hupdate : updatePortalState store before behind (fun s => do
      let (a, rest) ← operation s.rest
      pure (a, { s with rest := rest })) w.snapshot = .ok ((), t)) :
    Sound store { snapshot := t, clock := behind, updates := .other :: w.updates } := by
  obtain ⟨u, hother, rfl⟩ := updatePortalState_eq_ok hupdate
  simp only [bind_eq_ok, pure_eq_ok, Prod.mk.injEq] at hother
  obtain ⟨⟨-, rest⟩, -, -, rfl⟩ := hother
  refine h.next hforward h.distinct.maintain (fun r hr _ => hr) (fun _ _ _ _ h => by cases h) ?_
  intro r hr hpending
  exact Reserved.cons (h.pending r (mem_maintain.mp hr).1 hpending) rfl (fun _ _ h => by cases h)

/-- A failed update leaves the world as it was, a committed one as it is noted. -/
theorem World.after_cases {note : α → Update ρ} {result : Except PortalError (α × Snapshot σ ρ)} :
    w.after behind note result = { w with clock := behind } ∨ ∃ a s, result = .ok (a, s) ∧
      w.after behind note result =
        { snapshot := s, clock := behind, updates := note a :: w.updates } := by
  unfold World.after
  split
  · next a s => exact .inr ⟨a, s, rfl, rfl⟩
  · exact .inl rfl

theorem step_sound {a : Attempt σ ρ} (h : Sound store w ∧ Lawful store w.updates)
    (hstep : step store w a = some w') : Sound store w' ∧ Lawful store w'.updates := by
  cases a with
  | start route key body id now before behind =>
      simp only [step, Option.ite_none_right_eq_some, Option.some.injEq] at hstep
      obtain ⟨⟨hforward, hid⟩, rfl⟩ := hstep
      rcases w.after_cases with heq | ⟨outcome, t, hupdate, heq⟩ <;> rw [heq]
      · exact ⟨h.1.wait (hforward.1.trans hforward.2), h.2⟩
      · obtain ⟨hsound, hallowed⟩ := start_sound h.1 hforward hid hupdate
        exact ⟨hsound, hallowed, h.2⟩
  | complete reservation status operation before behind =>
      simp only [step, Option.ite_none_right_eq_some, Option.some.injEq] at hstep
      obtain ⟨hforward, rfl⟩ := hstep
      rcases w.after_cases with heq | ⟨result, t, hupdate, heq⟩ <;> rw [heq]
      · exact ⟨h.1.wait (hforward.1.trans hforward.2), h.2⟩
      · obtain ⟨hsound, hallowed⟩ := complete_sound h.1 hforward hupdate
        exact ⟨hsound, hallowed, h.2⟩
  | release reservation before behind =>
      simp only [step, Option.ite_none_right_eq_some, Option.some.injEq] at hstep
      obtain ⟨hforward, rfl⟩ := hstep
      rcases w.after_cases with heq | ⟨done, t, hupdate, heq⟩ <;> rw [heq]
      · exact ⟨h.1.wait (hforward.1.trans hforward.2), h.2⟩
      · exact ⟨release_sound h.1 hforward hupdate, trivial, h.2⟩
  | other operation before behind =>
      simp only [step, Option.ite_none_right_eq_some, Option.some.injEq] at hstep
      obtain ⟨hforward, rfl⟩ := hstep
      rcases w.after_cases with heq | ⟨done, t, hupdate, heq⟩ <;> rw [heq]
      · exact ⟨h.1.wait (hforward.1.trans hforward.2), h.2⟩
      · exact ⟨other_sound h.1 hforward hupdate, trivial, h.2⟩

/-- What is known of the records of a portal at work. -/
theorem sound_of_reachable (h : (system store).Reachable Free w) :
    Sound store w ∧ Lawful store w.updates := by
  refine h.invariant ?_ (fun _ _ _ _ hw _ hstep => step_sound hw hstep)
  rintro w ⟨hempty, hnone⟩
  have hnotMem : ∀ r, r ∉ w.snapshot.idempotency := by
    intro r
    rw [hempty]
    exact List.not_mem_nil
  have hnoUpdate : ∀ u, u ∉ w.updates := by
    intro u
    rw [hnone]
    exact List.not_mem_nil
  refine ⟨⟨?_, ?_, ?_⟩, ?_⟩
  · rw [hempty]
    exact List.nodup_nil
  · exact fun _ _ _ _ hmem => absurd hmem (hnoUpdate _)
  · exact fun r hr => absurd hr (hnotMem r)
  · rw [hnone]
    trivial

theorem Lawful.allowed {later earlier : List (Update ρ)} {u : Update ρ}
    (h : Lawful store (later ++ u :: earlier)) : Allowed store earlier u := by
  induction later with
  | nil => exact h.1
  | cons v later ih => exact ih h.2

end Steps

/-! ### Once -/

/-- What an attempt has done to the portal: an operation has its effect in the update that completes its
record, which is there until its retention is over; no other attempt of a request has one. -/
def Effect (store : Store σ ρ) (w w' : World σ ρ) : Attempt σ ρ → Prop
  | .start route key body id now before behind =>
      w'.updates = w.updates ∧ w'.snapshot = w.snapshot ∨
      ∃ outcome, w'.updates = .began route key body id now before outcome :: w.updates ∧
        (w'.snapshot.rest = store.maintainRest behind (store.maintainRest before w.snapshot.rest) ∨
          ∃ e, w'.snapshot.rest = store.maintainRest behind
            (store.appendPortalEvent e (store.maintainRest before w.snapshot.rest))) ∧
        ∀ hash, outcome = .conflict hash → w'.snapshot.idempotency =
          (maintainPortalState store behind (maintainPortalState store before w.snapshot)).idempotency
  | .complete reservation status operation before behind =>
      w'.updates = w.updates ∧ w'.snapshot = w.snapshot ∨
      ∃ result rest, w'.updates = .committed reservation before behind result :: w.updates ∧
        operation (store.maintainRest before w.snapshot.rest) = .ok (result.response, rest) ∧
        result.status = status result.response ∧
        w'.snapshot.rest = store.maintainRest behind (store.appendPortalEvent
          (.stored reservation.key reservation.route reservation.requestHash result.status) rest) ∧
        (result.record reservation ∈ w'.snapshot.idempotency ↔
          behind ≤ result.createdAt + store.idempotencyRetentionMs)
  | .release _ before behind =>
      w'.snapshot = w.snapshot ∨
        w'.snapshot.rest = store.maintainRest behind (store.maintainRest before w.snapshot.rest)
  | .other _ _ _ => True

section Final

variable {w w' : World σ ρ}

theorem effect_of_step {a : Attempt σ ρ} (h : Sound store w) (hstep : step store w a = some w') :
    Effect store w w' a := by
  cases a with
  | start route key body id now before behind =>
      simp only [step, Option.ite_none_right_eq_some, Option.some.injEq] at hstep
      obtain ⟨-, rfl⟩ := hstep
      rcases w.after_cases with heq | ⟨outcome, t, hupdate, heq⟩ <;> rw [heq]
      · exact .inl ⟨rfl, rfl⟩
      obtain ⟨u, hbegin, rfl⟩ := updatePortalState_eq_ok hupdate
      refine .inr ⟨outcome, rfl, ?_⟩
      cases begin_cases hbegin with
      | fresh _ => exact ⟨.inl rfl, nofun⟩
      | conflict _ _ _ => exact ⟨.inr ⟨_, rfl⟩, fun _ _ => rfl⟩
      | replay _ _ _ _ _ _ => exact ⟨.inr ⟨_, rfl⟩, nofun⟩
      | pending _ _ _ _ => exact ⟨.inl rfl, nofun⟩
      | renewed _ _ _ _ => exact ⟨.inl rfl, nofun⟩
  | complete reservation status operation before behind =>
      simp only [step, Option.ite_none_right_eq_some, Option.some.injEq] at hstep
      obtain ⟨hforward, rfl⟩ := hstep
      rcases w.after_cases with heq | ⟨result, t, hupdate, heq⟩ <;> rw [heq]
      · exact .inl ⟨rfl, rfl⟩
      have hsound := (complete_sound h hforward hupdate).1
      obtain ⟨u, hcomplete, rfl⟩ := updatePortalState_eq_ok hupdate
      obtain ⟨existing, rest, -, -, -, -, hoperation, hstatus, -, rfl⟩ := complete_cases hcomplete
      refine .inr ⟨result, rest, rfl, hoperation, hstatus, rfl, fun hmem => ?_, fun hnow => ?_⟩
      · exact retained_settled.mp (mem_maintain.mp hmem).2
      · exact hsound.kept reservation before behind result List.mem_cons_self hnow
  | release reservation before behind =>
      simp only [step, Option.ite_none_right_eq_some, Option.some.injEq] at hstep
      obtain ⟨-, rfl⟩ := hstep
      rcases w.after_cases with heq | ⟨done, t, hupdate, heq⟩ <;> rw [heq]
      · exact .inl rfl
      obtain ⟨u, hrelease, rfl⟩ := updatePortalState_eq_ok hupdate
      obtain ⟨-, rfl⟩ := Prod.mk.inj (Except.ok.inj hrelease)
      exact .inr rfl
  | other _ _ _ => trivial

/-- A key's operation has its effect once: of the updates of a portal at work, a committed operation is
the first of its key or comes behind the retention of those before it, and it is the one whose reservation
is the latest, stands and has its lease; within the retention of a committed operation every request with
the key is answered from it. -/
structure Once (store : Store σ ρ) (w : World σ ρ) : Prop where
  single : ∀ later reservation before behind result earlier,
    w.updates = later ++ .committed reservation before behind result :: earlier →
    ∀ reservation' before' behind' result',
      Update.committed reservation' before' behind' result' ∈ earlier →
      reservation'.route = reservation.route → reservation'.key = reservation.key →
      result'.createdAt + store.idempotencyRetentionMs < before
  worker : ∀ later reservation before behind result earlier,
    w.updates = later ++ .committed reservation before behind result :: earlier →
    Latest store reservation result.createdAt earlier ∧ Update.released reservation ∉ earlier ∧
      before < result.createdAt + store.idempotencyLeaseMs
  answered : ∀ later route key body id now before outcome earlier,
    w.updates = later ++ .began route key body id now before outcome :: earlier →
    ∀ reservation before' behind' result,
      Update.committed reservation before' behind' result ∈ earlier →
      reservation.route = route → reservation.key = key →
      before ≤ result.createdAt + store.idempotencyRetentionMs →
      ∃ done, requestHash store done = reservation.requestHash ∧
        (body = done → outcome = .replay (some result.response) result.status) ∧
        (body ≠ done → outcome = .conflict reservation.requestHash)
  effect : ∀ a w', step store w a = some w' → Effect store w w' a

/-- The bodies that requests have come with. -/
def bodies (updates : List (Update ρ)) : Set (List UInt8) :=
  {body | ∃ route key id now before outcome, Update.began route key body id now before outcome ∈ updates}

/-- Whatever requests do and in whatever order, if no two of their bodies have the same digest. -/
theorem once_of_reachable (hsha : Set.InjOn store.sha256 (bodies w.updates))
    (h : (system store).Reachable Free w) : Once store w := by
  obtain ⟨hsound, hlawful⟩ := sound_of_reachable h
  refine ⟨?_, ?_, ?_, fun a w' hstep => effect_of_step hsound hstep⟩
  · intro later reservation before behind result earlier hupdates
    rw [hupdates] at hlawful
    exact hlawful.allowed.1
  · intro later reservation before behind result earlier hupdates
    rw [hupdates] at hlawful
    exact hlawful.allowed.2
  · intro later route key body id now before outcome earlier hupdates reservation before' behind' result
      hmem hroute hkey hnow
    rw [hupdates] at hlawful hsha
    have houtcome := hlawful.allowed reservation before' behind' result hmem hroute hkey hnow
    -- the body of the request that was completed
    obtain ⟨past, older, hsplit⟩ := List.append_of_mem hmem
    have hbehind := hlawful
    rw [hsplit, ← List.cons_append, ← List.append_assoc] at hbehind
    obtain ⟨done, time, hissue, hdone⟩ := hbehind.allowed.2.1
    refine ⟨done, hdone, ?_, ?_⟩
    · rintro rfl
      rw [houtcome, if_pos hdone]
    · intro hne
      rw [houtcome, if_neg]
      intro heq
      have hissued := List.mem_of_find?_eq_some hissue
      have hearlier : Update.began reservation.route reservation.key done reservation.reservationId
          result.createdAt time .reserved ∈ earlier := by
        rw [hsplit]
        exact List.mem_append_right _ (List.mem_cons_of_mem _ hissued)
      have hfirst : done ∈ bodies (later ++ .began route key body id now before outcome :: earlier) :=
        ⟨_, _, _, _, _, _, List.mem_append_right _ (List.mem_cons_of_mem _ hearlier)⟩
      have hsecond : body ∈ bodies (later ++ .began route key body id now before outcome :: earlier) :=
        ⟨_, _, _, _, _, _, List.mem_append_right _ List.mem_cons_self⟩
      exact hne (hsha hsecond hfirst ((String.append_right_inj _).mp (heq.trans hdone.symm)))

end Final

/-! ### A request, its retry and another body -/

namespace Sample

/-- Events are only counted; a digest is the body itself, letter by letter. -/
def portal : Store ℕ String where
  idempotencyLeaseMs := 120000
  idempotencyRetentionMs := 86400000
  maxIdempotency := 1000
  maintainRest _ events := events
  appendPortalEvent _ events := events + 1
  fits _ := true
  sha256 body := String.ofList (body.map (fun b => Char.ofNat b.toNat))

def reservation : Reservation where
  key := "key-0001"
  route := "solutions.verify"
  requestHash := "sha256:a"
  reservationId := "r1"

def attempts : List (Attempt ℕ String) :=
  [.start "solutions.verify" "key-0001" [97] "r1" 1000 1001 1002,
    .complete reservation (fun _ => 201) (fun events => .ok ("accepted", events + 1)) 60000 60001,
    .start "solutions.verify" "key-0001" [97] "r2" 70000 70000 70000,
    .start "solutions.verify" "key-0001" [98] "r3" 80000 80000 80000]

def start : World ℕ String := { snapshot := ⟨[], 0⟩, clock := 0, updates := [] }

theorem sha256_injective : Function.Injective portal.sha256 := by
  intro body body' heq
  refine List.map_injective_iff.mpr ?_ (String.ofList_injective heq)
  intro a b hab
  have hval : ∀ a : UInt8, (Char.ofNat a.toNat).toNat = a.toNat := by decide +kernel
  have hnat := congrArg Char.toNat hab
  rw [hval, hval] at hnat
  exact UInt8.toNat_inj.mp hnat

/-- The retry and the other body are noted, and the operation has had its effect once. -/
theorem once_sample : ∃ w, ((system portal).exec start attempts) = some w ∧ w.snapshot.rest = 4 ∧
    Once portal w := by
  have hrun : ((system portal).exec start attempts).map (fun w => w.snapshot.rest) = some 4 := by
    decide +kernel
  obtain ⟨w, hw, hrest⟩ := Option.map_eq_some_iff.mp hrun
  exact ⟨w, hw, hrest, once_of_reachable (sha256_injective.injOn)
    (System.Reachable.of_exec ⟨rfl, rfl⟩ hw)⟩

end Sample

end P42Prizes.Portal
