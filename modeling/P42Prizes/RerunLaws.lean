import P42Prizes.RerunDispatcher

/-! # What the dispatcher of reruns keeps

`Sound` says how the three files of a board fit together between any two writes: a slot names a request
that has a journal; while that request is under way, `request.json` is its own; of the requests of a board
one at most is under way, and one that is being dispatched holds the slot.  The invariant is about the
requests of the spool and about what has been found of them so far.

A board whose `request.json` was put in place by its first request but which has no slot yet is open
(`Open`).  Only that request can give it a slot, so the invariant of an open board asks that the request
is still rotating, and a pass keeps it if the request has neither results nor expired when the pass comes
to it. -/

namespace P42Prizes.Rerun

open Passes

/-! ### Files that fit together -/

section Requests

variable (map : List Board) (spool : List Request) (visit : Request → Visit)

/-- A request of the spool and its board. -/
def On (r : Request) (id : ℕ) : Prop := r ∈ spool ∧ home map r = some id

def statusOf (f : Files) (r : Request) : Option DispatchStatus :=
  (f.journals r.requestHash).map Journal.status

/-- The request is under way. -/
def Live (f : Files) (r : Request) : Prop := ∃ st, statusOf f r = some st ∧ st.live = true

/-- Requests of a spool are told apart by their hashes, and their boards are in the dispatch map. -/
structure Authentic : Prop where
  unique : ∀ r ∈ spool, ∀ r' ∈ spool, r.requestHash = r'.requestHash → r = r'
  mapped : ∀ r ∈ spool, ∃ id, home map r = some id

structure Sound (f : Files) : Prop where
  journal : ∀ h j, f.journals h = some j →
    ∃ r id, On map spool r id ∧ r.requestHash = h ∧ j = journalFor id r j.status
  slot : ∀ id v, f.slots id = some v → ∃ r, On map spool r id ∧ v = slotFor id r ∧ statusOf f r ≠ none
  installed : ∀ id r, On map spool r id → f.slots id = some (slotFor id r) → Live f r →
    f.requests id = some r
  alone : ∀ id r r', On map spool r id → On map spool r' id → Live f r → Live f r' → r = r'
  placed : ∀ id r, On map spool r id →
    statusOf f r = some .dispatching ∨ statusOf f r = some .dispatched →
    f.slots id = some (slotFor id r)
  expired : ∀ r ∈ spool, statusOf f r = some .terminalExpired → r.expiresAtUtc ≤ (visit r).now
  completed : ∀ r ∈ spool, statusOf f r = some .completed → (visit r).ready = true
  unslotted : ∀ id r, f.slots id = none → f.requests id = some r →
    On map spool r id ∧ statusOf f r = some .rotating

end Requests

variable {map : List Board} {spool : List Request} {visit : Request → Visit} {f : Files}
  {r r' : Request} {id : ℕ} {st : DispatchStatus}

theorem slotFor_inj (ha : Authentic map spool) (hr : r ∈ spool) (hr' : r' ∈ spool)
    (h : slotFor id r = slotFor id r') : r = r' :=
  ha.unique r hr r' hr' (congrArg Slot.requestHash h)

theorem statusOf_setJournal (ha : Authentic map spool) (hr : r ∈ spool) (hr' : r' ∈ spool) :
    statusOf (f.setJournal r.requestHash (journalFor id r st)) r' =
      if r' = r then some st else statusOf f r' := by
  by_cases heq : r' = r
  · subst heq
    simp [statusOf, Files.setJournal, journalFor]
  · have hhash : r'.requestHash ≠ r.requestHash := fun h => heq (ha.unique r' hr' r hr h)
    simp [statusOf, Files.setJournal, heq, hhash]

theorem live_setJournal (ha : Authentic map spool) (hr : r ∈ spool) (hr' : r' ∈ spool) :
    Live (f.setJournal r.requestHash (journalFor id r st)) r' ↔
      r' = r ∧ st.live = true ∨ r' ≠ r ∧ Live f r' := by
  unfold Live
  rw [statusOf_setJournal ha hr hr']
  by_cases heq : r' = r
  · rw [if_pos heq]
    simp [heq]
  · rw [if_neg heq]
    simp [heq]

theorem live_iff : Live f r ↔ statusOf f r = some .rotating ∨ statusOf f r = some .dispatching ∨
    statusOf f r = some .dispatched := by
  unfold Live
  constructor
  · rintro ⟨st, hst, hlive⟩
    cases st
    · exact .inl hst
    · exact .inr (.inl hst)
    · exact .inr (.inr hst)
    · cases hlive
    · cases hlive
  · rintro (h | h | h)
    · exact ⟨_, h, rfl⟩
    · exact ⟨_, h, rfl⟩
    · exact ⟨_, h, rfl⟩

namespace Sound

/-- A request with a journal that has not come to an end is under way. -/
theorem live (h : Sound map spool visit f) (hr : r ∈ spool) (hsome : statusOf f r ≠ none)
    (hready : (visit r).ready = false) (hnow : (visit r).now < r.expiresAtUtc) : Live f r := by
  obtain ⟨st, hst⟩ := Option.ne_none_iff_exists'.mp hsome
  refine ⟨st, hst, ?_⟩
  cases st
  · rfl
  · rfl
  · rfl
  · have := h.completed r hr hst
    rw [hready] at this
    cases this
  · have := h.expired r hr hst
    omega

theorem setJournal (h : Sound map spool visit f) (ha : Authentic map spool) (hr : On map spool r id)
    (hinstalled : st.live = true → f.slots id = some (slotFor id r) → f.requests id = some r)
    (halone : st.live = true → ∀ r', On map spool r' id → Live f r' → r' = r)
    (hplaced : st = .dispatching ∨ st = .dispatched → f.slots id = some (slotFor id r))
    (hexpired : st = .terminalExpired → r.expiresAtUtc ≤ (visit r).now)
    (hcompleted : st = .completed → (visit r).ready = true)
    (hunslotted : f.slots id = none → f.requests id = some r → st = .rotating) :
    Sound map spool visit (f.setJournal r.requestHash (journalFor id r st)) where
  journal i j hj := by
    unfold Files.setJournal at hj
    dsimp only at hj
    split at hj
    · next heq =>
        obtain rfl := Option.some.inj hj
        exact ⟨r, id, hr, heq.symm, rfl⟩
    · exact h.journal i j hj
  slot i v hv := by
    obtain ⟨r', hr', hslot, hstatus⟩ := h.slot i v hv
    refine ⟨r', hr', hslot, ?_⟩
    rw [statusOf_setJournal ha hr.1 hr'.1]
    split
    · exact Option.some_ne_none st
    · exact hstatus
  installed i r' hr' hslot hlive := by
    rcases (live_setJournal ha hr.1 hr'.1).mp hlive with ⟨rfl, hst⟩ | ⟨-, hlive⟩
    · obtain rfl : id = i := Option.some.inj (hr.2.symm.trans hr'.2)
      exact hinstalled hst hslot
    · exact h.installed i r' hr' hslot hlive
  alone i r₁ r₂ h₁ h₂ hlive₁ hlive₂ := by
    have hid : ∀ {r'}, On map spool r' i → r' = r → id = i := by
      rintro r' hr' rfl
      exact Option.some.inj (hr.2.symm.trans hr'.2)
    rcases (live_setJournal ha hr.1 h₁.1).mp hlive₁ with ⟨heq₁, hst⟩ | ⟨-, hlive₁⟩ <;>
      rcases (live_setJournal ha hr.1 h₂.1).mp hlive₂ with ⟨heq₂, hst'⟩ | ⟨-, hlive₂⟩
    · exact heq₁.trans heq₂.symm
    · obtain rfl := hid h₁ heq₁
      exact heq₁.trans (halone hst r₂ h₂ hlive₂).symm
    · obtain rfl := hid h₂ heq₂
      exact (halone hst' r₁ h₁ hlive₁).trans heq₂.symm
    · exact h.alone i r₁ r₂ h₁ h₂ hlive₁ hlive₂
  placed i r' hr' hstatus := by
    rw [statusOf_setJournal ha hr.1 hr'.1] at hstatus
    split at hstatus
    · next heq =>
        subst heq
        obtain rfl : id = i := Option.some.inj (hr.2.symm.trans hr'.2)
        exact hplaced (hstatus.imp Option.some.inj Option.some.inj)
    · exact h.placed i r' hr' hstatus
  expired r' hr' hstatus := by
    rw [statusOf_setJournal ha hr.1 hr'] at hstatus
    split at hstatus
    · next heq =>
        subst heq
        exact hexpired (Option.some.inj hstatus)
    · exact h.expired r' hr' hstatus
  completed r' hr' hstatus := by
    rw [statusOf_setJournal ha hr.1 hr'] at hstatus
    split at hstatus
    · next heq =>
        subst heq
        exact hcompleted (Option.some.inj hstatus)
    · exact h.completed r' hr' hstatus
  unslotted i r' hslot hfile := by
    obtain ⟨hr', hstatus⟩ := h.unslotted i r' hslot hfile
    refine ⟨hr', ?_⟩
    rw [statusOf_setJournal ha hr.1 hr'.1]
    split
    · next heq =>
        subst heq
        obtain rfl : id = i := Option.some.inj (hr.2.symm.trans hr'.2)
        rw [hunslotted hslot hfile]
    · exact hstatus

theorem setRequest (h : Sound map spool visit f) (hr : On map spool r id)
    (hinstalled : ∀ r', On map spool r' id → f.slots id = some (slotFor id r') → Live f r' → r' = r)
    (hunslotted : f.slots id = none → statusOf f r = some .rotating) :
    Sound map spool visit (f.setRequest id r) where
  journal := h.journal
  slot := h.slot
  installed i r' hr' hslot hlive := by
    unfold Files.setRequest
    dsimp only
    split
    · next heq =>
        subst heq
        rw [hinstalled r' hr' hslot hlive]
    · exact h.installed i r' hr' hslot hlive
  alone := h.alone
  placed := h.placed
  expired := h.expired
  completed := h.completed
  unslotted i r' hslot hfile := by
    unfold Files.setRequest at hfile
    dsimp only at hfile
    split at hfile
    · next heq =>
        subst heq
        obtain rfl := Option.some.inj hfile
        exact ⟨hr, hunslotted hslot⟩
    · exact h.unslotted i r' hslot hfile

theorem setSlot (h : Sound map spool visit f) (ha : Authentic map spool) (hr : On map spool r id)
    (hlive : Live f r) (hfile : f.requests id = some r)
    (hplaced : ∀ r', On map spool r' id →
      statusOf f r' = some .dispatching ∨ statusOf f r' = some .dispatched → r' = r) :
    Sound map spool visit (f.setSlot id (slotFor id r)) where
  journal := h.journal
  slot i v hv := by
    unfold Files.setSlot at hv
    dsimp only at hv
    split at hv
    · next heq =>
        subst heq
        obtain ⟨st, hst, -⟩ := hlive
        exact ⟨r, hr, (Option.some.inj hv).symm, fun hnone => by
          change statusOf f r = none at hnone
          rw [hst] at hnone
          cases hnone⟩
    · exact h.slot i v hv
  installed i r' hr' hslot hlive' := by
    unfold Files.setSlot at hslot
    dsimp only at hslot
    split at hslot
    · next heq =>
        subst heq
        obtain rfl := slotFor_inj ha hr.1 hr'.1 (Option.some.inj hslot)
        exact hfile
    · exact h.installed i r' hr' hslot hlive'
  alone := h.alone
  placed i r' hr' hstatus := by
    unfold Files.setSlot
    dsimp only
    split
    · next heq =>
        subst heq
        rw [hplaced r' hr' hstatus]
    · exact h.placed i r' hr' hstatus
  expired := h.expired
  completed := h.completed
  unslotted i r' hslot hfile' := by
    unfold Files.setSlot at hslot
    dsimp only at hslot
    split at hslot
    · cases hslot
    · exact h.unslotted i r' hslot hfile'

/-- What is known of more requests, and later, is still known. -/
theorem mono {spool' : List Request} {visit' : Request → Visit} (h : Sound map spool visit f)
    (ha : Authentic map spool') (hsub : spool ⊆ spool')
    (hnow : ∀ r ∈ spool, (visit r).now ≤ (visit' r).now)
    (hready : ∀ r ∈ spool, (visit r).ready = true → (visit' r).ready = true) :
    Sound map spool' visit' f := by
  have hon : ∀ {r id}, On map spool r id → On map spool' r id := fun hr => ⟨hsub hr.1, hr.2⟩
  have hold : ∀ {r}, r ∈ spool' → statusOf f r ≠ none → r ∈ spool := by
    intro r hr hstatus
    obtain ⟨j, hj⟩ := Option.ne_none_iff_exists'.mp
      (fun hnone => hstatus (by rw [statusOf, hnone]; rfl) : f.journals r.requestHash ≠ none)
    obtain ⟨r₁, id, hr₁, hhash, -⟩ := h.journal _ j hj
    exact ha.unique r₁ (hsub hr₁.1) r hr hhash ▸ hr₁.1
  have hsome : ∀ {r st}, statusOf f r = some st → statusOf f r ≠ none := by
    intro r st hst hnone
    rw [hst] at hnone
    cases hnone
  have hlive : ∀ {r id}, On map spool' r id → Live f r → On map spool r id := by
    rintro r id hr ⟨st, hst, -⟩
    exact ⟨hold hr.1 (hsome hst), hr.2⟩
  exact
    { journal := fun i j hj => by
        obtain ⟨r, id, hr, hrest⟩ := h.journal i j hj
        exact ⟨r, id, hon hr, hrest⟩
      slot := fun id v hv => by
        obtain ⟨r, hr, hrest⟩ := h.slot id v hv
        exact ⟨r, hon hr, hrest⟩
      installed := fun id r hr hslot hl => h.installed id r (hlive hr hl) hslot hl
      alone := fun id r r' hr hr' hl hl' => h.alone id r r' (hlive hr hl) (hlive hr' hl') hl hl'
      placed := fun id r hr hstatus => h.placed id r
        ⟨hold hr.1 (hstatus.elim hsome hsome), hr.2⟩ hstatus
      expired := fun r hr hstatus => (h.expired r (hold hr (hsome hstatus)) hstatus).trans
        (hnow r (hold hr (hsome hstatus)))
      completed := fun r hr hstatus =>
        hready r (hold hr (hsome hstatus)) (h.completed r (hold hr (hsome hstatus)) hstatus)
      unslotted := fun id r hslot hfile => by
        obtain ⟨hr, hstatus⟩ := h.unslotted id r hslot hfile
        exact ⟨hon hr, hstatus⟩ }

end Sound

/-! ### What is kept from state to state -/

def Completed (f : Files) (h : ℕ) : Prop := ∃ j, f.journals h = some j ∧ j.status = .completed

/-- A unit is started on a request that `request.json`, the slot and a dispatching journal name and that
had not expired; `request.json` is replaced while the unit is idle and the request in the slot has come
to an end. -/
def Event.Good : Event → Prop
  | .resetFailed _ => True
  | .started id files checkedAt => ∃ r, files.requests id = some r ∧ files.slots id = some (slotFor id r) ∧
      files.journals r.requestHash = some (journalFor id r .dispatching) ∧ checkedAt < r.expiresAtUtc
  | .installed id files r active => ∀ r', files.requests id = some r' → r' ≠ r → active = false ∧
      ∃ v j, files.slots id = some v ∧ files.journals v.requestHash = some j ∧ j.status.live = false

/-- What a unit is started on was not completed in the files. -/
def Event.Spares (f : Files) : Event → Prop
  | .started _ files _ => ∀ h, Completed f h → Completed files h
  | _ => True

structure Kept (s t : State) : Prop where
  events : ∃ new, t.events = s.events ++ new ∧ ∀ e ∈ new, e.Good ∧ e.Spares s.files
  completed : ∀ h, Completed s.files h → Completed t.files h

variable {s t u s₀ : State} {p : Round} {E : State → Prop}

theorem Kept.refl (s : State) : Kept s s where
  events := ⟨[], (List.append_nil _).symm, List.forall_mem_nil _⟩
  completed _ h := h

theorem Kept.trans (h : Kept s t) (h' : Kept t u) : Kept s u where
  events := by
    obtain ⟨new, hnew, hgood⟩ := h.events
    obtain ⟨new', hnew', hgood'⟩ := h'.events
    refine ⟨new ++ new', by rw [hnew', hnew, List.append_assoc], ?_⟩
    refine List.forall_mem_append.mpr ⟨hgood, fun e he => ⟨(hgood' e he).1, ?_⟩⟩
    have hspares := (hgood' e he).2
    cases e with
    | started id files now => exact fun i hi => hspares i (h.completed i hi)
    | resetFailed id => trivial
    | installed id files r active => trivial
  completed i hi := h'.completed i (h.completed i hi)

theorem Kept.setJournal (hnew : ¬ Completed s.files r.requestHash ∨ st = .completed) :
    Kept s { s with files := s.files.setJournal r.requestHash (journalFor id r st) } where
  events := ⟨[], (List.append_nil _).symm, List.forall_mem_nil _⟩
  completed h hdone := by
    unfold Completed Files.setJournal
    dsimp only
    split
    · next heq =>
        rcases hnew with hnew | rfl
        · exact absurd (heq ▸ hdone) hnew
        · exact ⟨_, rfl, rfl⟩
    · exact hdone

/-- Files are changed without any of their journals. -/
theorem Kept.setFiles {g : Files} (h : g.journals = s.files.journals) : Kept s { s with files := g } where
  events := ⟨[], (List.append_nil _).symm, List.forall_mem_nil _⟩
  completed i hi := by
    unfold Completed
    rw [h]
    exact hi

theorem Kept.emit {e : Event} (hgood : e.Good) (hspares : e.Spares s.files) :
    Kept s { s with events := s.events ++ [e] } where
  events := ⟨[e], rfl, List.forall_mem_singleton.mpr ⟨hgood, hspares⟩⟩
  completed _ h := h

/-! ### One request -/

/-- What holds between any two writes of a pass that began in `s₀`. -/
structure Mid (map : List Board) (p : Round) (s₀ t : State) : Prop where
  sound : Sound map p.spool p.visit t.files
  kept : Kept s₀ t

/-- The process has left no temporary file. -/
def Free (pid : ℕ) (s : State) : Prop := ∀ path, (path, pid) ∉ s.temporaries

theorem durableReplace_ends {path : Path} {g : State → State} {P Q : State → Prop}
    (hfree : ∀ t, P t → Free p.pid t)
    (hmid : ∀ t, P t → Mid map p s₀ t) (h : ∀ t, P t → Q (g t)) :
    Ends (Mid map p s₀) P (durableReplace p.pid path g) (fun _ => Q) E := by
  refine .get_bind (fun t ht => ?_)
  rw [if_neg (hfree t ht path)]
  refine .bind (Q := fun _ u => u = { t with temporaries := (path, p.pid) :: t.temporaries })
    (.write ?_ ?_) (fun _ => .write ?_ ?_)
  · rintro u rfl
    exact hmid u ht
  · rintro u rfl
    rfl
  · rintro u rfl
    exact ⟨(hmid t ht).sound, (hmid t ht).kept.events, (hmid t ht).kept.completed⟩
  · rintro u rfl
    have hsame : ((path, p.pid) :: t.temporaries).filter (· ≠ (path, p.pid)) = t.temporaries := by
      rw [List.filter_cons_of_neg (by simp), List.filter_eq_self]
      intro entry hentry
      have hne : entry ≠ (path, p.pid) := fun heq => hfree t ht path (heq ▸ hentry)
      simpa using hne
    dsimp only
    rw [hsame]
    exact h t ht

theorem writeJournal_ends (hmid : Mid map p s₀ s) (hfree : Free p.pid s) :
    Ends (Mid map p s₀) (· = s) (writeJournal p.pid id r st)
      (fun _ t => t = { s with files := s.files.setJournal r.requestHash (journalFor id r st) }) E := by
  refine durableReplace_ends (P := fun t => t = s) ?_ ?_ ?_
  · rintro t rfl
    exact hfree
  · rintro t rfl
    exact hmid
  · rintro t rfl
    rfl

theorem writeSlot_ends (hmid : Mid map p s₀ s) (hfree : Free p.pid s) :
    Ends (Mid map p s₀) (· = s) (writeSlot p.pid id r)
      (fun _ t => t = { s with files := s.files.setSlot id (slotFor id r) }) E := by
  refine durableReplace_ends (P := fun t => t = s) ?_ ?_ ?_
  · rintro t rfl
    exact hfree
  · rintro t rfl
    exact hmid
  · rintro t rfl
    rfl

/-- Of the files, only those of one board and one request have changed, and the events go on. -/
structure Touched (id : ℕ) (r : Request) (s t : State) : Prop where
  slots : ∀ i, i ≠ id → t.files.slots i = s.files.slots i
  requests : ∀ i, i ≠ id → t.files.requests i = s.files.requests i
  journals : ∀ h, h ≠ r.requestHash → t.files.journals h = s.files.journals h
  events : s.events <+: t.events

theorem Touched.refl (s : State) : Touched id r s s where
  slots _ _ := rfl
  requests _ _ := rfl
  journals _ _ := rfl
  events := List.prefix_rfl

theorem Touched.trans (h : Touched id r s t) (h' : Touched id r t u) : Touched id r s u where
  slots i hi := (h'.slots i hi).trans (h.slots i hi)
  requests i hi := (h'.requests i hi).trans (h.requests i hi)
  journals i hi := (h'.journals i hi).trans (h.journals i hi)
  events := h.events.trans h'.events

theorem Touched.setJournal (j : Journal) :
    Touched id r s { s with files := s.files.setJournal r.requestHash j } where
  slots _ _ := rfl
  requests _ _ := rfl
  journals _ hi := if_neg hi
  events := List.prefix_rfl

theorem Touched.setSlot (v : Slot) : Touched id r s { s with files := s.files.setSlot id v } where
  slots _ hi := if_neg hi
  requests _ _ := rfl
  journals _ _ := rfl
  events := List.prefix_rfl

theorem Touched.install (e : Event) :
    Touched id r s { s with files := s.files.setRequest id r, events := s.events ++ [e] } where
  slots _ _ := rfl
  requests _ hi := if_neg hi
  journals _ _ := rfl
  events := List.prefix_append _ _

theorem Touched.emit (e : Event) : Touched id r s { s with events := s.events ++ [e] } where
  slots _ _ := rfl
  requests _ _ := rfl
  journals _ _ := rfl
  events := List.prefix_append _ _

theorem Live.not_completed (h : Live f r) : ¬ Completed f r.requestHash := by
  rintro ⟨j, hj, hdone⟩
  obtain ⟨st, hst, hlive⟩ := h
  rw [statusOf, hj, Option.map_some, hdone] at hst
  obtain rfl := Option.some.inj hst
  cases hlive

/-- What is known when a pass comes to a request: none other of its board is under way. -/
structure Turn (map : List Board) (p : Round) (s₀ : State) (id : ℕ) (r : Request) (s : State) :
    Prop where
  authentic : Authentic map p.spool
  mid : Mid map p s₀ s
  free : Free p.pid s
  on : On map p.spool r id
  alone : ∀ r', On map p.spool r' id → Live s.files r' → r' = r
  bound : s.files.slots id = none → s.files.requests id = some r →
    (p.visit r).ready = false ∧ (p.visit r).now < r.expiresAtUtc
  quiet : (p.visit r).activeAtInstall = true → (p.visit r).state.busy = true

/-- The request has its board: it holds the slot and `request.json`, and is under way. -/
structure Prepared (map : List Board) (p : Round) (s₀ : State) (id : ℕ) (r : Request) (s t : State) :
    Prop where
  mid : Mid map p s₀ t
  free : Free p.pid t
  touched : Touched id r s t
  live : Live t.files r
  slot : t.files.slots id = some (slotFor id r)
  request : t.files.requests id = some r

theorem Mid.step (h : Mid map p s₀ s) (hsound : Sound map p.spool p.visit t.files) (hkept : Kept s t) :
    Mid map p s₀ t := ⟨hsound, h.kept.trans hkept⟩

/-- The slot goes to the request when the one before it has come to an end. -/
theorem rotate_ends {allowReplace : Bool} (h : Turn map p s₀ id r s)
    (hready : (p.visit r).ready = false) (hidle : (p.visit r).state.busy = false)
    (hslot : s.files.slots id ≠ some (slotFor id r))
    (hreplace : s.files.requests id ≠ none → s.files.requests id ≠ some r → allowReplace = true ∧
      ∃ v j, s.files.slots id = some v ∧ v.requestHash ≠ r.requestHash ∧
        s.files.journals v.requestHash = some j ∧ j.status.live = false) :
    Ends (Mid map p s₀) (· = s) (rotate p id r allowReplace)
      (fun _ => Prepared map p s₀ id r s) E := by
  have hcompleted : ¬ Completed s.files r.requestHash := by
    rintro ⟨j, hj, hdone⟩
    have := h.mid.sound.completed r h.on.1 (by rw [statusOf, hj, Option.map_some, hdone])
    rw [hready] at this
    cases this
  -- the journal says that the request rotates
  obtain ⟨s₁, hs₁⟩ : ∃ s₁ : State, s₁ =
    { s with files := s.files.setJournal r.requestHash (journalFor id r .rotating) } := ⟨_, rfl⟩
  have hstatus₁ : statusOf s₁.files r = some .rotating := by
    rw [hs₁]
    exact (statusOf_setJournal h.authentic h.on.1 h.on.1).trans (if_pos rfl)
  have hlive₁ : Live s₁.files r := live_iff.mpr (.inl hstatus₁)
  have halone₁ : ∀ r', On map p.spool r' id → Live s₁.files r' → r' = r := by
    intro r' hr' hlive
    rw [hs₁] at hlive
    rcases (live_setJournal h.authentic h.on.1 hr'.1).mp hlive with ⟨heq, -⟩ | ⟨-, hlive⟩
    · exact heq
    · exact h.alone r' hr' hlive
  have hmid₁ : Mid map p s₀ s₁ := by
    rw [hs₁]
    refine h.mid.step (h.mid.sound.setJournal h.authentic h.on ?_ (fun _ => h.alone) ?_ ?_ ?_ ?_)
      (Kept.setJournal (.inl hcompleted))
    · exact fun _ hheld => absurd hheld hslot
    · rintro (hst | hst) <;> cases hst
    · exact fun hst => by cases hst
    · exact fun hst => by cases hst
    · exact fun _ _ => rfl
  have htouched₁ : Touched id r s s₁ := by
    rw [hs₁]
    exact Touched.setJournal _
  have hfree₁ : Free p.pid s₁ := by
    rw [hs₁]
    exact h.free
  -- `request.json` is put in place
  have hinstalled : ∀ t, (Mid map p s₀ t ∧ Free p.pid t ∧ Touched id r s t ∧
      t.files.journals = s₁.files.journals ∧ t.files.requests id = some r) →
      Ends (Mid map p s₀) (· = t) (writeSlot p.pid id r) (fun _ => Prepared map p s₀ id r s) E := by
    rintro t ⟨hmid, hfree, htouched, hjournals, hrequest⟩
    have hlives : ∀ r', Live t.files r' ↔ Live s₁.files r' := by
      intro r'
      simp only [Live, statusOf, hjournals]
    refine (writeSlot_ends hmid hfree).weaken (fun _ hu => hu) ?_
    rintro - u rfl
    refine ⟨hmid.step (hmid.sound.setSlot h.authentic h.on ((hlives r).mpr hlive₁) hrequest ?_)
      (Kept.setFiles rfl), hfree, htouched.trans (Touched.setSlot _), (hlives r).mpr hlive₁,
      if_pos rfl, hrequest⟩
    intro r' hr' hstatus
    exact halone₁ r' hr' ((hlives r').mp (live_iff.mpr (.inr hstatus)))
  refine .bind (Q := fun _ t => t = s₁) ((writeJournal_ends h.mid h.free).weaken (fun _ ht => ht) ?_)
    (fun _ => .bind (Q := fun _ t => Mid map p s₀ t ∧ Free p.pid t ∧ Touched id r s t ∧
      t.files.journals = s₁.files.journals ∧ t.files.requests id = some r) ?_
      (fun _ => .of_state hinstalled))
  · rintro - t rfl
    exact hs₁.symm
  refine .get_bind ?_
  rintro t rfl
  have hfiles : t.files.requests = s.files.requests ∧ t.files.slots = s.files.slots := by
    rw [hs₁]
    exact ⟨rfl, rfl⟩
  split
  · next hsame =>
      refine .pure ?_
      rintro u rfl
      exact ⟨hmid₁, hfree₁, htouched₁, rfl, hsame⟩
  · next hdiffers =>
      rw [hfiles.1] at hdiffers
      rw [if_neg ?allowed]
      case allowed =>
        rintro ⟨hsome, hforbidden⟩
        rw [hfiles.1] at hsome
        rw [(hreplace hsome hdiffers).1] at hforbidden
        cases hforbidden
      refine durableReplace_ends (P := fun u => u = t) ?_ ?_ ?_
      · rintro u rfl
        exact hfree₁
      · rintro u rfl
        exact hmid₁
      · rintro u rfl
        have hgood : (Event.installed id u.files r (p.visit r).activeAtInstall).Good := by
          intro r' hr' hne
          rw [hfiles.1] at hr'
          refine ⟨?_, ?_⟩
          · cases hactive : (p.visit r).activeAtInstall
            · rfl
            · have hbusy := h.quiet hactive
              rw [hidle] at hbusy
              cases hbusy
          · obtain ⟨-, v, j, hv, hhash, hj, hend⟩ :=
              hreplace (by rw [hr']; exact Option.some_ne_none r') hdiffers
            refine ⟨v, j, by rw [hfiles.2]; exact hv, ?_, hend⟩
            rw [htouched₁.journals _ hhash]
            exact hj
        have hnext : Mid map p s₀ { u with
            files := u.files.setRequest id r
            events := u.events ++ [.installed id u.files r (p.visit r).activeAtInstall] } := by
          refine hmid₁.step (hmid₁.sound.setRequest h.on (fun r' hr' _ hlive => halone₁ r' hr' hlive)
            (fun _ => hstatus₁)) ?_
          exact (Kept.emit hgood trivial).trans (Kept.setFiles rfl)
        exact ⟨hnext, hfree₁, htouched₁.trans (Touched.install _), rfl, if_pos rfl⟩

/-- A request that is under way in the slot has its `request.json` already. -/
theorem install_ends (h : Prepared map p s₀ id r s t) {allowReplace active : Bool} :
    Ends (Mid map p s₀) (· = t) (installExactRequest p.pid id r allowReplace active)
      (fun _ => Prepared map p s₀ id r s) E := by
  refine .get_bind ?_
  rintro u rfl
  rw [if_pos h.request]
  refine .pure ?_
  rintro v rfl
  exact h

/-- A request that has neither results nor expired gets its board from any files that fit together. -/
theorem prepare_ends (h : Turn map p s₀ id r s) (hready : (p.visit r).ready = false)
    (hidle : (p.visit r).state.busy = false) (hnow : (p.visit r).now < r.expiresAtUtc) :
    Ends (Mid map p s₀) (· = s) (prepare p id r) (fun _ => Prepared map p s₀ id r s) E := by
  refine .get_bind ?_
  rintro t rfl
  cases hslot : t.files.slots id with
  | some v =>
      obtain ⟨r', hr', rfl, hstatus⟩ := h.mid.sound.slot id v hslot
      dsimp only
      by_cases hhash : (slotFor id r').requestHash = r.requestHash
      · obtain rfl := h.authentic.unique r' hr'.1 r h.on.1 hhash
        rw [if_pos hhash]
        have hlive := h.mid.sound.live h.on.1 hstatus hready hnow
        exact install_ends ⟨h.mid, h.free, Touched.refl t, hlive, hslot,
          h.mid.sound.installed id r' h.on hslot hlive⟩
      · rw [if_neg hhash]
        obtain ⟨prior, hprior⟩ := Option.ne_none_iff_exists'.mp
          (fun hnone => hstatus (by rw [statusOf, hnone]; rfl) : t.files.journals r'.requestHash ≠ none)
        have hend : prior.status.live = false := by
          by_contra hlive
          rw [Bool.not_eq_false] at hlive
          have heq := h.alone r' hr' ⟨prior.status, by rw [statusOf, hprior]; rfl, hlive⟩
          exact hhash (congrArg Request.requestHash heq)
        rw [show t.files.journals (slotFor id r').requestHash = some prior from hprior]
        dsimp only
        rw [hend, if_neg Bool.false_ne_true]
        refine rotate_ends h hready hidle ?_ ?_
        · intro hsame
          exact hhash (congrArg Slot.requestHash (Option.some.inj (hslot.symm.trans hsame)))
        · exact fun _ _ => ⟨rfl, slotFor id r', prior, hslot, hhash, hprior, hend⟩
  | none =>
      dsimp only
      have hfile : t.files.requests id = none ∨ t.files.requests id = some r := by
        cases hrequest : t.files.requests id with
        | none => exact .inl rfl
        | some r' =>
            obtain ⟨hr', hstatus⟩ := h.mid.sound.unslotted id r' hslot hrequest
            exact .inr (congrArg some (h.alone r' hr' (live_iff.mpr (.inl hstatus))))
      rw [if_neg ?bound]
      case bound =>
        rintro ⟨hsome, hother⟩
        exact hfile.elim hsome hother
      refine rotate_ends h hready hidle ?_ ?_
      · intro hsame
        rw [hslot] at hsame
        cases hsame
      · intro hsome hother
        exact (hfile.elim hsome hother).elim

/-- The journal of a request that has its board may say that it is dispatching or dispatched. -/
theorem Prepared.journal (h : Prepared map p s₀ id r s t) (ha : Authentic map p.spool)
    (hr : On map p.spool r id) (hst : st = .dispatching ∨ st = .dispatched) :
    Prepared map p s₀ id r s
      { t with files := t.files.setJournal r.requestHash (journalFor id r st) } where
  mid := by
    refine h.mid.step (h.mid.sound.setJournal ha hr (fun _ _ => h.request) ?_ (fun _ => h.slot) ?_ ?_ ?_)
      (Kept.setJournal (.inl h.live.not_completed))
    · exact fun _ r' hr' hlive => h.mid.sound.alone id r' r hr' hr hlive h.live
    · rintro rfl
      rcases hst with hst | hst <;> cases hst
    · rintro rfl
      rcases hst with hst | hst <;> cases hst
    · intro hnone
      rw [h.slot] at hnone
      cases hnone
  free := h.free
  touched := h.touched.trans (Touched.setJournal _)
  live := by
    refine (live_setJournal ha hr.1 hr.1).mpr (.inl ⟨rfl, ?_⟩)
    rcases hst with rfl | rfl <;> rfl
  slot := h.slot
  request := h.request

theorem Prepared.emit (h : Prepared map p s₀ id r s t) {e : Event} (hgood : e.Good)
    (hspares : e.Spares t.files) :
    Prepared map p s₀ id r s { t with events := t.events ++ [e] } where
  mid := h.mid.step h.mid.sound (Kept.emit hgood hspares)
  free := h.free
  touched := h.touched.trans (Touched.emit e)
  live := h.live
  slot := h.slot
  request := h.request

theorem emit_ends {e : State → Event} (hmid : Mid map p s₀ s) :
    Ends (Mid map p s₀) (· = s) (emit e) (fun _ t => t = { s with events := s.events ++ [e s] }) E := by
  refine .write ?_ ?_
  · rintro t rfl
    exact hmid
  · rintro t rfl
    rfl

/-- A unit of the board is started between two states. -/
def Started (id : ℕ) (s t : State) : Prop :=
  ∃ new, t.events = s.events ++ new ∧ ∃ files now, Event.started id files now ∈ new

theorem dispatch_ends (h : Turn map p s₀ id r s) (hready : (p.visit r).ready = false)
    (hidle : (p.visit r).state.busy = false) (hnow : (p.visit r).now < r.expiresAtUtc) :
    Ends (Mid map p s₀) (· = s) (dispatch p id r)
      (fun _ t => Prepared map p s₀ id r s t ∧ statusOf t.files r = some .dispatched ∧ Started id s t)
      E := by
  refine .bind (prepare_ends h hready hidle hnow) (fun _ => .of_state fun t ht => ?_)
  refine .bind (writeJournal_ends ht.mid ht.free) (fun _ => ?_)
  have hdispatching := ht.journal h.authentic h.on (.inl rfl)
  obtain ⟨u, hu⟩ : ∃ u : State, u =
    { t with files := t.files.setJournal r.requestHash (journalFor id r .dispatching) } := ⟨_, rfl⟩
  rw [← hu] at hdispatching ⊢
  have hjournal : u.files.journals r.requestHash = some (journalFor id r .dispatching) := by
    rw [hu]
    exact if_pos rfl
  -- a failed unit is reset first
  refine .bind (Q := fun _ v => Prepared map p s₀ id r s v ∧ v.files = u.files) ?_ (fun _ => ?_)
  · unfold reset
    split
    · refine (emit_ends hdispatching.mid).weaken (fun _ hv => hv) ?_
      rintro - v rfl
      exact ⟨hdispatching.emit trivial trivial, rfl⟩
    · refine .pure ?_
      rintro v rfl
      exact ⟨hdispatching, rfl⟩
  refine .of_state ?_
  rintro v ⟨hv, hfiles⟩
  have hgood : (Event.started id v.files (p.visit r).now).Good :=
    ⟨r, hv.request, hv.slot, by rw [hfiles]; exact hjournal, hnow⟩
  refine .bind (emit_ends hv.mid) (fun _ => ?_)
  have hstarted := hv.emit hgood (fun _ hi => hi)
  refine (writeJournal_ends hstarted.mid hstarted.free).weaken (fun _ hw => hw) ?_
  rintro - w rfl
  have hend := hstarted.journal h.authentic h.on (.inr rfl)
  refine ⟨hend, ?_, ?_⟩
  · exact (statusOf_setJournal h.authentic h.on.1 h.on.1).trans (if_pos rfl)
  · obtain ⟨new, hnew⟩ := hv.touched.events
    refine ⟨new ++ [.started id v.files (p.visit r).now], ?_, v.files, (p.visit r).now, ?_⟩
    · rw [← List.append_assoc, hnew]
    · exact List.mem_append_right _ (List.mem_singleton_self _)

/-- What a pass has done with a request: its board is taken, or the request is at an end and its board is
as it was. -/
structure Visited (map : List Board) (p : Round) (s₀ : State) (id : ℕ) (r : Request) (s : State)
    (taken : Bool) (t : State) : Prop where
  mid : Mid map p s₀ t
  free : Free p.pid t
  touched : Touched id r s t
  took : taken = true → statusOf t.files r = some .dispatched ∧
    ((p.visit r).state.busy = false → (p.visit r).ready = false ∧ (p.visit r).now < r.expiresAtUtc ∧
      Started id s t)
  settled : taken = false → ¬ Live t.files r ∧ t.files.slots id = s.files.slots id ∧
    t.files.requests id = s.files.requests id ∧
    ((p.visit r).ready = true ∨ r.expiresAtUtc ≤ (p.visit r).now)

/-- A request whose results are there, or that has expired, comes to its end. -/
theorem settle_ends (h : Turn map p s₀ id r s) (hst : st = .completed ∧ (p.visit r).ready = true ∨
    st = .terminalExpired ∧ r.expiresAtUtc ≤ (p.visit r).now)
    (hnew : statusOf s.files r ≠ some .completed) :
    Ends (Mid map p s₀) (· = s) (do writeJournal p.pid id r st; pure (false, journalFor id r st))
      (fun o => Visited map p s₀ id r s o.1) E := by
  have hend : st.live = false := by
    rcases hst with ⟨rfl, -⟩ | ⟨rfl, -⟩ <;> rfl
  have hcompleted : ¬ Completed s.files r.requestHash := by
    rintro ⟨j, hj, hdone⟩
    exact hnew (by rw [statusOf, hj, Option.map_some, hdone])
  refine .bind (writeJournal_ends h.mid h.free) (fun _ => .pure ?_)
  rintro t rfl
  have hlive : st.live ≠ true := by
    rw [hend]
    exact Bool.false_ne_true
  refine ⟨h.mid.step (h.mid.sound.setJournal h.authentic h.on (fun hl => absurd hl hlive)
    (fun hl => absurd hl hlive) ?_ ?_ ?_ ?_) (Kept.setJournal (.inl hcompleted)), h.free,
    Touched.setJournal _, (fun htaken => nomatch htaken), fun _ => ⟨?_, rfl, rfl, ?_⟩⟩
  · rintro (rfl | rfl)
    · exact absurd rfl hlive
    · exact absurd rfl hlive
  · rintro rfl
    rcases hst with ⟨hst, -⟩ | ⟨-, hnow⟩
    · cases hst
    · exact hnow
  · rintro rfl
    rcases hst with ⟨-, hready⟩ | ⟨hst, -⟩
    · exact hready
    · cases hst
  · intro hslot hfile
    obtain ⟨hready, hnow⟩ := h.bound hslot hfile
    rcases hst with ⟨-, hready'⟩ | ⟨-, hnow'⟩
    · rw [hready] at hready'
      cases hready'
    · omega
  · intro hl
    rcases (live_setJournal h.authentic h.on.1 h.on.1).mp hl with ⟨-, hl⟩ | ⟨hne, -⟩
    · exact hlive hl
    · exact hne rfl
  · rcases hst with ⟨-, hready⟩ | ⟨-, hnow⟩
    · exact .inl hready
    · exact .inr hnow

/-- A pass that comes to a request settles it or takes its board; it throws at a unit at work only. -/
theorem visitRequest_ends (h : Turn map p s₀ id r s)
    (hE : ∀ t, Mid map p s₀ t → (p.visit r).state.busy = true → E t) :
    Ends (Mid map p s₀) (· = s) (visitRequest p id r) (fun o => Visited map p s₀ id r s o.1) E := by
  refine .get_bind ?_
  rintro t rfl
  dsimp only
  rw [if_neg ?binding]
  case binding =>
    rintro ⟨j, hj, hconflict⟩
    obtain ⟨r', id', hr', hhash, hform⟩ := h.mid.sound.journal _ j hj
    obtain rfl := h.authentic.unique r' hr'.1 r h.on.1 hhash
    obtain rfl : id = id' := Option.some.inj (h.on.2.symm.trans hr'.2)
    rw [hform] at hconflict
    rcases hconflict with hne | hne | hne | hne <;> exact hne rfl
  by_cases hdone : (t.files.journals r.requestHash).map Journal.status = some .completed
  · rw [if_pos hdone]
    refine .pure ?_
    rintro u rfl
    refine ⟨h.mid, h.free, Touched.refl u, (fun htaken => nomatch htaken), fun _ => ⟨?_, rfl, rfl, ?_⟩⟩
    · rintro ⟨st, hst, hlive⟩
      obtain rfl := Option.some.inj (hdone.symm.trans hst)
      cases hlive
    · exact .inl (h.mid.sound.completed r h.on.1 hdone)
  rw [if_neg hdone]
  by_cases hready : (p.visit r).ready = true
  · rw [if_pos hready]
    exact settle_ends h (.inl ⟨rfl, hready⟩) hdone
  rw [if_neg hready]
  rw [Bool.not_eq_true] at hready
  by_cases hbusy : (p.visit r).state.busy = true
  · rw [if_pos hbusy]
    split
    · next hmatch =>
        obtain ⟨hslot, hstatus⟩ := hmatch
        obtain ⟨v, hv, hhash⟩ := Option.map_eq_some_iff.mp hslot
        obtain ⟨r', hr', rfl, -⟩ := h.mid.sound.slot id v hv
        obtain rfl := h.authentic.unique r' hr'.1 r h.on.1 hhash
        have hlive : Live t.files r' := live_iff.mpr (.inr hstatus)
        have hprepared : Prepared map p s₀ id r' t t :=
          ⟨h.mid, h.free, Touched.refl t, hlive, hv, h.mid.sound.installed id r' h.on hv hlive⟩
        refine .bind (install_ends hprepared) (fun _ => .of_state fun u hu => ?_)
        refine .bind (writeJournal_ends hu.mid hu.free) (fun _ => .pure ?_)
        rintro w rfl
        have hnext := hu.journal h.authentic h.on (.inr rfl)
        refine ⟨hnext.mid, hnext.free, hnext.touched, fun _ => ⟨?_, fun hidle => ?_⟩,
          (fun hleft => nomatch hleft)⟩
        · exact (statusOf_setJournal h.authentic h.on.1 h.on.1).trans (if_pos rfl)
        · rw [hbusy] at hidle
          cases hidle
    · refine .throw ?_
      rintro u rfl
      exact hE u h.mid hbusy
  rw [if_neg hbusy]
  rw [Bool.not_eq_true] at hbusy
  by_cases hnow : r.expiresAtUtc ≤ (p.visit r).now
  · rw [if_pos hnow]
    exact settle_ends h (.inr ⟨rfl, hnow⟩) hdone
  · rw [if_neg hnow]
    have hbefore : (p.visit r).now < r.expiresAtUtc := Nat.lt_of_not_le hnow
    refine .bind (dispatch_ends h hready hbusy hbefore) (fun _ => .pure ?_)
    rintro u ⟨hprepared, hstatus, hstarted⟩
    exact ⟨hprepared.mid, hprepared.free, hprepared.touched,
      fun _ => ⟨hstatus, fun _ => ⟨hready, hbefore, hstarted⟩⟩, (fun hleft => nomatch hleft)⟩

/-! ### A pass -/

/-- A pass meets its files as it may: no temporary file is left of its process id, an open board waits
for a request that is neither ready nor expired, and no unit comes to be at work between the query of its
state and the installation of its request. -/
structure Clean (p : Round) (s : State) : Prop where
  pid : Free p.pid s
  bound : ∀ id r, s.files.slots id = none → s.files.requests id = some r →
    (p.visit r).ready = false ∧ (p.visit r).now < r.expiresAtUtc
  quiet : ∀ r, (p.visit r).activeAtInstall = true → (p.visit r).state.busy = true

/-- What holds as a pass that began in `s₀` goes on with the requests of `todo`. -/
structure Going (map : List Board) (p : Round) (s₀ : State) (todo : List Request) (busy : List ℕ)
    (s : State) : Prop where
  mid : Mid map p s₀ s
  free : Free p.pid s
  subset : todo ⊆ p.spool
  sorted : todo.Pairwise (precedes s₀.files)
  frame : ∀ id, id ∉ busy → s.files.slots id = s₀.files.slots id ∧
    s.files.requests id = s₀.files.requests id
  live : ∀ r id, On map p.spool r id → id ∉ busy → Live s.files r → r ∈ todo ∧ Live s₀.files r
  taken : ∀ id ∈ busy, ∃ r, On map p.spool r id ∧ statusOf s.files r = some .dispatched ∧
    ((p.visit r).state.busy = false →
      (p.visit r).ready = false ∧ (p.visit r).now < r.expiresAtUtc ∧ Started id s₀ s)
  seen : ∀ r ∈ p.spool, r ∈ todo ∨ (p.visit r).ready = true ∨ r.expiresAtUtc ≤ (p.visit r).now ∨
    ∃ id ∈ busy, home map r = some id

theorem priority_of_live (h : Live f r) : priority f r = 0 := by
  obtain ⟨st, hst, hlive⟩ := h
  obtain ⟨j, hj, rfl⟩ := Option.map_eq_some_iff.mp hst
  simp [priority, hj, hlive]

theorem live_of_priority (h : priority f r = 0) : Live f r := by
  unfold priority at h
  split at h
  · next j hj =>
      split at h
      · next hlive => exact ⟨j.status, by rw [statusOf, hj]; rfl, hlive⟩
      · cases h
  · cases h

theorem Started.mono (h : Started id s t) (hevents : t.events <+: u.events) : Started id s u := by
  obtain ⟨new, hnew, files, now, hmem⟩ := h
  obtain ⟨more, hmore⟩ := hevents
  exact ⟨new ++ more, by rw [← hmore, hnew, List.append_assoc], files, now, List.mem_append_left _ hmem⟩

theorem Started.of_kept (h : Started id s t) (hkept : Kept s₀ s) : Started id s₀ t := by
  obtain ⟨new, hnew, files, now, hmem⟩ := h
  obtain ⟨old, hold, -⟩ := hkept.events
  exact ⟨old ++ new, by rw [hnew, hold, List.append_assoc], files, now, List.mem_append_right _ hmem⟩

namespace Going

variable {todo : List Request} {busy : List ℕ} {taken : Bool}

/-- The pass comes to a request of a board that it has not yet taken. -/
theorem turn (h : Going map p s₀ (r :: todo) busy s) (ha : Authentic map p.spool)
    (hsound : Sound map p.spool p.visit s₀.files) (hclean : Clean p s₀) (hid : home map r = some id)
    (hfree : id ∉ busy) : Turn map p s₀ id r s where
  authentic := ha
  mid := h.mid
  free := h.free
  on := ⟨h.subset List.mem_cons_self, hid⟩
  alone := by
    intro r' hr' hlive
    obtain ⟨hmem, hlive₀⟩ := h.live r' id hr' hfree hlive
    rcases List.mem_cons.mp hmem with heq | hmem
    · exact heq
    · have hr : On map p.spool r id := ⟨h.subset List.mem_cons_self, hid⟩
      have horder := (List.pairwise_cons.mp h.sorted).1 r' hmem
      have hzero : priority s₀.files r = 0 := by
        have hother := priority_of_live hlive₀
        rcases horder with hlt | ⟨heq, -⟩
        · omega
        · omega
      exact hsound.alone id r' r hr' hr hlive₀ (live_of_priority hzero)
  bound := by
    obtain ⟨hslot, hrequest⟩ := h.frame id hfree
    rw [hslot, hrequest]
    exact hclean.bound id r
  quiet := hclean.quiet r

theorem skip (h : Going map p s₀ (r :: todo) busy s) (hid : home map r = some id) (hbusy : id ∈ busy) :
    Going map p s₀ todo busy s where
  mid := h.mid
  free := h.free
  subset := List.subset_of_cons_subset h.subset
  sorted := (List.pairwise_cons.mp h.sorted).2
  frame := h.frame
  live := by
    intro r' i hr' hi hlive
    obtain ⟨hmem, hlive₀⟩ := h.live r' i hr' hi hlive
    refine ⟨?_, hlive₀⟩
    rcases List.mem_cons.mp hmem with rfl | hmem
    · obtain rfl : i = id := Option.some.inj (hr'.2.symm.trans hid)
      exact absurd hbusy hi
    · exact hmem
  taken := h.taken
  seen := by
    intro r' hr'
    rcases h.seen r' hr' with hmem | hrest
    · rcases List.mem_cons.mp hmem with rfl | hmem
      · exact .inr (.inr (.inr ⟨id, hbusy, hid⟩))
      · exact .inl hmem
    · exact .inr hrest

theorem next (h : Going map p s₀ (r :: todo) busy s) (ha : Authentic map p.spool)
    (hid : home map r = some id) (hfree : id ∉ busy) (hv : Visited map p s₀ id r s taken t) :
    Going map p s₀ todo (if taken then id :: busy else busy) t where
  mid := hv.mid
  free := hv.free
  subset := List.subset_of_cons_subset h.subset
  sorted := (List.pairwise_cons.mp h.sorted).2
  frame := by
    intro i hi
    cases taken
    · obtain ⟨-, hslot, hrequest, -⟩ := hv.settled rfl
      obtain ⟨hslot₀, hrequest₀⟩ := h.frame i hi
      by_cases heq : i = id
      · subst heq
        exact ⟨hslot.trans hslot₀, hrequest.trans hrequest₀⟩
      · exact ⟨(hv.touched.slots i heq).trans hslot₀, (hv.touched.requests i heq).trans hrequest₀⟩
    · rw [if_pos rfl, List.mem_cons, not_or] at hi
      obtain ⟨hslot₀, hrequest₀⟩ := h.frame i hi.2
      exact ⟨(hv.touched.slots i hi.1).trans hslot₀, (hv.touched.requests i hi.1).trans hrequest₀⟩
  live := by
    intro r' i hr' hi hlive
    have hne : r' ≠ r := by
      rintro rfl
      obtain rfl : i = id := Option.some.inj (hr'.2.symm.trans hid)
      cases taken
      · exact (hv.settled rfl).1 hlive
      · exact hi List.mem_cons_self
    have hhash : r'.requestHash ≠ r.requestHash := fun heq =>
      hne (ha.unique r' hr'.1 r (h.subset List.mem_cons_self) heq)
    have hbefore : Live s.files r' := by
      obtain ⟨st, hst, hl⟩ := hlive
      exact ⟨st, by rw [← hst, statusOf, statusOf, hv.touched.journals _ hhash], hl⟩
    have hi' : i ∉ busy := by
      cases taken
      · exact hi
      · exact fun hmem => hi (List.mem_cons_of_mem _ hmem)
    obtain ⟨hmem, hlive₀⟩ := h.live r' i hr' hi' hbefore
    exact ⟨(List.mem_cons.mp hmem).resolve_left hne, hlive₀⟩
  taken := by
    intro i hi
    have hold : i ∈ busy → i ≠ id → ∃ r', On map p.spool r' i ∧
        statusOf t.files r' = some .dispatched ∧ ((p.visit r').state.busy = false →
          (p.visit r').ready = false ∧ (p.visit r').now < r'.expiresAtUtc ∧ Started i s₀ t) := by
      intro hmem hne
      obtain ⟨r', hr', hstatus, hidle⟩ := h.taken i hmem
      have hhash : r'.requestHash ≠ r.requestHash := by
        intro heq
        obtain rfl := ha.unique r' hr'.1 r (h.subset List.mem_cons_self) heq
        exact hne (Option.some.inj (hr'.2.symm.trans hid))
      refine ⟨r', hr', by rw [statusOf, hv.touched.journals _ hhash]; exact hstatus, fun hquiet => ?_⟩
      obtain ⟨hready, hnow, hstarted⟩ := hidle hquiet
      exact ⟨hready, hnow, hstarted.mono hv.touched.events⟩
    by_cases heq : i = id
    · subst heq
      cases htaken : taken
      · subst htaken
        exact absurd hi hfree
      · obtain ⟨hstatus, hidle⟩ := hv.took htaken
        refine ⟨r, ⟨h.subset List.mem_cons_self, hid⟩, hstatus, fun hquiet => ?_⟩
        obtain ⟨hready, hnow, hstarted⟩ := hidle hquiet
        exact ⟨hready, hnow, hstarted.of_kept h.mid.kept⟩
    · refine hold ?_ heq
      cases taken
      · exact hi
      · exact (List.mem_cons.mp hi).resolve_left heq
  seen := by
    intro r' hr'
    rcases h.seen r' hr' with hmem | hready | hnow | ⟨i, hi, hhome⟩
    · rcases List.mem_cons.mp hmem with rfl | hmem
      · cases taken
        · rcases (hv.settled rfl).2.2.2 with hready | hnow
          · exact .inr (.inl hready)
          · exact .inr (.inr (.inl hnow))
        · exact .inr (.inr (.inr ⟨id, List.mem_cons_self, hid⟩))
      · exact .inl hmem
    · exact .inr (.inl hready)
    · exact .inr (.inr (.inl hnow))
    · refine .inr (.inr (.inr ⟨i, ?_, hhome⟩))
      cases taken
      · exact hi
      · exact List.mem_cons_of_mem _ hi

end Going

/-- A unit was found at work. -/
def AtWork (p : Round) : Prop := ∃ r ∈ p.spool, (p.visit r).state.busy = true

theorem visitAll_ends {todo : List Request} {busy : List ℕ} (ha : Authentic map p.spool)
    (hsound : Sound map p.spool p.visit s₀.files) (hclean : Clean p s₀) :
    Ends (Mid map p s₀) (Going map p s₀ todo busy) (visitAll map p todo busy)
      (fun _ t => ∃ busy', Going map p s₀ [] busy' t) (fun t => Mid map p s₀ t ∧ AtWork p) := by
  induction todo generalizing busy with
  | nil => exact .pure (fun s hs => ⟨busy, hs⟩)
  | cons r todo ih =>
      unfold visitAll
      refine .observe_bind ?_ (fun id hid => ?_)
      · intro hnone s hs
        obtain ⟨id, hid⟩ := ha.mapped r (hs.subset List.mem_cons_self)
        rw [hnone] at hid
        cases hid
      split
      · next hbusy => exact ih.weaken (fun s hs => hs.skip hid hbusy) (fun _ _ h => h)
      · next hfree =>
          refine .bind (Q := fun o t => Going map p s₀ todo (if o.1 then id :: busy else busy) t)
            (.of_state fun s hs => ?_) (fun o => ?_)
          · refine (visitRequest_ends (hs.turn ha hsound hclean hid hfree) ?_).weaken
              (fun _ ht => ht) (fun o t hv => hs.next ha hid hfree hv)
            exact fun t hmid hbusy => ⟨hmid, r, hs.subset List.mem_cons_self, hbusy⟩
          · exact .bind ih (fun _ => .pure fun _ h => h)

theorem precedes_trans : IsTrans Request (precedes f) where
  trans a b c hab hbc := by
    unfold precedes at hab hbc ⊢
    rcases hab with hab | ⟨hab, hle⟩ <;> rcases hbc with hbc | ⟨hbc, hle'⟩
    · exact .inl (hab.trans hbc)
    · exact .inl (hbc ▸ hab)
    · exact .inl (hab ▸ hbc)
    · exact .inr ⟨hab.trans hbc, hle.trans hle'⟩

theorem precedes_total : Std.Total (precedes f) where
  total a b := by
    unfold precedes
    rcases Nat.lt_trichotomy (priority f a) (priority f b) with h | h | h
    · exact .inl (.inl h)
    · rcases le_total (toLex a.sourceName) (toLex b.sourceName) with hle | hle
      · exact .inl (.inr ⟨h, hle⟩)
      · exact .inr (.inr ⟨h.symm, hle⟩)
    · exact .inr (.inl h)

theorem going_start (hsound : Sound map p.spool p.visit s.files) (hclean : Clean p s) :
    Going map p s (p.spool.insertionSort (precedes s.files)) [] s where
  mid := ⟨hsound, Kept.refl s⟩
  free := hclean.pid
  subset := fun r hr => (List.perm_insertionSort _ _).mem_iff.mp hr
  sorted := by
    have := precedes_trans (f := s.files)
    have := precedes_total (f := s.files)
    exact List.pairwise_insertionSort _ _
  frame _ _ := ⟨rfl, rfl⟩
  live r id hr _ hlive := ⟨(List.perm_insertionSort _ _).mem_iff.mpr hr.1, hlive⟩
  taken id hid := absurd hid List.not_mem_nil
  seen r hr := .inl ((List.perm_insertionSort _ _).mem_iff.mpr hr)

/-- A pass from files that fit together throws only at a unit at work, and otherwise leaves no board with
a request that could be dispatched. -/
theorem dispatchResolverReruns_ends (ha : Authentic map p.spool)
    (hsound : Sound map p.spool p.visit s.files) (hclean : Clean p s) :
    Ends (Mid map p s) (· = s) (dispatchResolverReruns map p)
      (fun _ t => ∃ busy, Going map p s [] busy t) (fun t => Mid map p s t ∧ AtWork p) := by
  refine .get_bind ?_
  rintro t rfl
  refine (visitAll_ends ha hsound hclean).weaken ?_ (fun _ _ h => h)
  rintro u rfl
  exact going_start hsound hclean

theorem left_mid (ha : Authentic map p.spool) (hsound : Sound map p.spool p.visit s.files)
    (hclean : Clean p s) : Mid map p s (p.left map s) := by
  rcases (dispatchResolverReruns_ends ha hsound hclean).after rfl p.granted with
    hmid | ⟨_, busy, hgoing⟩ | ⟨hmid, -⟩
  · exact hmid
  · exact hgoing.mid
  · exact hmid

/-! ### Runs -/

/-- A later pass: requests stay in the spool, the clock does not go back and results stay. -/
structure Later (q p : Round) : Prop where
  spool : q.spool ⊆ p.spool
  now : ∀ r ∈ q.spool, (q.visit r).now ≤ (p.visit r).now
  ready : ∀ r ∈ q.spool, (q.visit r).ready = true → (p.visit r).ready = true

/-- The states that clean passes come to, each of them cut off anywhere. -/
inductive Reached (map : List Board) : List Round → State → Prop
  | start : Reached map [] initial
  | pass {rounds : List Round} {s : State} (p : Round) (reached : Reached map rounds s)
      (authentic : Authentic map p.spool) (later : ∀ q ∈ rounds, Later q p) (clean : Clean p s) :
      Reached map (rounds ++ [p]) (p.left map s)

variable {rounds : List Round}

theorem sound_initial : Sound map spool visit initial.files where
  journal _ _ h := nomatch h
  slot _ _ h := nomatch h
  installed _ _ _ h := nomatch h
  alone := by
    rintro _ _ _ _ _ ⟨_, h, _⟩
    cases h
  placed := by
    rintro _ _ _ (h | h) <;> cases h
  expired _ _ h := nomatch h
  completed _ _ h := nomatch h
  unslotted _ _ _ h := nomatch h

/-- The files fit together in whatever a later pass knows. -/
theorem Reached.sound (h : Reached map rounds s) (ha : Authentic map p.spool)
    (hlater : ∀ q ∈ rounds, Later q p) : Sound map p.spool p.visit s.files := by
  induction h generalizing p with
  | start => exact sound_initial
  | pass q _ hauthentic hbefore hclean ih =>
      have hq := hlater q (List.mem_append_right _ (List.mem_singleton_self q))
      exact (left_mid hauthentic (ih hauthentic hbefore) hclean).sound.mono ha hq.spool hq.now hq.ready

theorem Reached.unique (h : Reached map rounds s) (h' : Reached map rounds t) : s = t := by
  induction h generalizing t with
  | start =>
      generalize hnil : ([] : List Round) = none' at h'
      cases h' with
      | start => rfl
      | pass p => exact absurd hnil (by simp)
  | @pass rounds s p _ _ _ _ ih =>
      generalize hlast : rounds ++ [p] = all at h'
      cases h' with
      | start => exact absurd hlast (by simp)
      | @pass rounds' s' p' hreached =>
          obtain ⟨rfl, hp⟩ := List.append_inj' hlast rfl
          obtain rfl := List.singleton_inj.mp hp
          rw [ih hreached]

theorem Reached.kept {earlier later : List Round} (h : Reached map (earlier ++ later) t)
    (h' : Reached map earlier s) : Kept s t := by
  induction later using List.reverseRecOn generalizing t with
  | nil =>
      rw [List.append_nil] at h
      rw [h'.unique h]
      exact Kept.refl t
  | append_singleton later p ih =>
      rw [← List.append_assoc] at h
      generalize hall : earlier ++ later ++ [p] = all at h
      cases h with
      | start => exact absurd hall (by simp)
      | @pass rounds u q hreached ha hlater hclean =>
          obtain ⟨rfl, hq⟩ := List.append_inj' hall rfl
          obtain rfl := List.singleton_inj.mp hq
          exact (ih hreached).trans (left_mid ha (hreached.sound ha hlater) hclean).kept

namespace Sample

def boards : List Board := [{ registryProblemId := 2, boardId := "84532:2:hadamard-mini" }]

def first : Request where
  requestHash := 0x6a
  packetHash := 0x11
  orchestratorNonce := 0x44
  boardId := "84532:2:hadamard-mini"
  expiresAtUtc := 1784505600000
  digest := 0x7c

def second : Request where
  requestHash := 0x9e
  packetHash := 0x55
  orchestratorNonce := 0x66
  boardId := "84532:2:hadamard-mini"
  expiresAtUtc := 1784678400000
  digest := 0x3f

/-- A pass at a time, with idle units and no results. -/
def round (pid now granted : ℕ) (spool : List Request) : Round where
  pid := pid
  spool := spool
  visit _ := { now := now, ready := false, state := .inactive, activeAtInstall := false }
  granted := granted

def installed : Round := round 811 1784462400000 4 [first]

def slotted : Round := round 811 1784462400000 6 [first]

/-- The first request has expired. -/
def expired (pid : ℕ) : Round := round pid 1784592000000 100 [first, second]

theorem authentic (spool : List Request) (hspool : spool ⊆ [first, second]) : Authentic boards spool where
  unique r hr r' hr' := by
    have hr := hspool hr
    have hr' := hspool hr'
    simp only [List.mem_cons, List.not_mem_nil, or_false] at hr hr'
    rcases hr with rfl | rfl <;> rcases hr' with rfl | rfl <;> decide
  mapped r hr := by
    have hr := hspool hr
    simp only [List.mem_cons, List.not_mem_nil, or_false] at hr
    rcases hr with rfl | rfl <;> exact ⟨2, by decide⟩

end Sample

end P42Prizes.Rerun
