import P42Prizes.EnvelopeLock

/-! # Mutual exclusion of the lock

The lock is never torn: it always holds the record of the process that has renamed it into place, and
as long as that process lives nobody but itself moves it.  A reclaimer that is about to move it away
knows that its owner is dead and, being alone under the reclaim directory, that the lock is still the
one it has read.  `Sound` says what each process knows at each of its steps. -/

namespace P42Prizes.EnvelopeLock

open Transition

/-! ### Small steps -/

namespace World

variable {w : World} {p q : ℕ} {call : Call} {ended : Ended} {draw : Draw}

@[simp] theorem setProcess_files (process : Process) : (w.setProcess p process).files = w.files := rfl

@[simp] theorem setProcess_issuer (process : Process) :
    (w.setProcess p process).issuer = w.issuer := rfl

@[simp] theorem setProcess_self (process : Process) :
    (w.setProcess p process).processes p = process := Function.update_self ..

theorem setProcess_ne (process : Process) (h : q ≠ p) :
    (w.setProcess p process).processes q = w.processes q := Function.update_of_ne h ..

@[simp] theorem withFiles_files (files : Files) : (w.withFiles files).files = files := rfl

@[simp] theorem withFiles_issuer (files : Files) : (w.withFiles files).issuer = w.issuer := rfl

@[simp] theorem withFiles_processes (files : Files) :
    (w.withFiles files).processes = w.processes := rfl

/-- A step of `p` after which it goes on with `call`, and holds what it has held. -/
structure Moves (w : World) (p : ℕ) (w' : World) (call : Call) : Prop where
  issuer : w'.issuer = w.issuer
  others : ∀ q, q ≠ p → w'.processes q = w.processes q
  alive : (w'.processes p).alive = (w.processes p).alive
  held : (w'.processes p).held = (w.processes p).held
  call : (w'.processes p).call = call

theorem moves_goto (files : Files) : w.Moves p ((w.withFiles files).goto p call) call where
  issuer := rfl
  others := fun _ h => setProcess_ne _ h
  alive := by simp [goto]
  held := by simp [goto]
  call := by simp [goto]

theorem moves_finish (files : Files) : w.Moves p ((w.withFiles files).finish p ended) .idle where
  issuer := rfl
  others := fun _ h => setProcess_ne _ h
  alive := by simp [finish]
  held := by simp [finish]
  call := by simp [finish]

theorem moves_retry (files : Files) : ∃ call, (call = .idle ∨ call = .acquireLoop) ∧
    w.Moves p ((w.withFiles files).retry p draw) call := by
  unfold retry
  split
  · exact ⟨_, .inl rfl, moves_finish files⟩
  · exact ⟨_, .inr rfl, moves_goto files⟩

@[simp] theorem retry_files : (w.retry p draw).files = w.files := by
  unfold retry
  split <;> rfl

end World

/-! ### What holds in between -/

/-- The process has made the reclaim directory and not yet removed it. -/
def Call.InReclaim : Call → Prop
  | .reclaimRead _ | .reclaimAlive _ | .reclaimRename _ | .reclaimMoved _ | .reclaimExists _
  | .reclaimRestore _ | .reclaimUnlink _ | .reclaimRmdir _ | .reclaimFinally _ => True
  | _ => False

namespace World

variable (hostname : String) (w : World) (p : ℕ)

def Alive : Prop := (w.processes p).alive = true

/-- `owner` is the record of a lock that `p` is about to acquire. -/
def Drawn (owner : Owner) : Prop :=
  owner.pid = p ∧ w.issuer owner.token = some p ∧ w.files (.release owner.token) = none

/-- `owner` is the record of a lock that `p` has just moved away. -/
def Given (owner : Owner) : Prop :=
  w.issuer owner.token = some p ∧ (w.processes p).held = none

/-- What `p` knows at each step of its call. -/
def Knows : Call → Prop
  | .idle | .acquireLoop | .observe | .observedAlive _ => True
  | .stageMkdir owner => w.Drawn p owner ∧ w.files (.acquire owner.token) = none
  | .stageOpen owner => w.Drawn p owner ∧ w.files (.acquire owner.token) = some .missing
  | .stageWrite owner => w.Drawn p owner ∧ w.files (.acquire owner.token) = some .torn
  | .stageRename owner => w.Drawn p owner ∧ w.files (.acquire owner.token) = some (.whole owner)
  | .unstageFile owner _ | .unstageDir owner _ => w.issuer owner.token = some p
  | .reclaimMkdir observed | .reclaimRead observed => ¬ w.Alive observed.pid
  | .reclaimAlive current | .reclaimRename current =>
      ¬ w.Alive current.pid ∧ w.files .lock = some (.whole current)
  | .reclaimMoved current => w.files (.dead current.token) = some (.whole current)
  | .reclaimUnlink _ | .reclaimRmdir _ | .reclaimFinally _ => True
  | .releaseRead owner => owner.pid = p
  | .releaseRename owner => ∃ held, (w.processes p).held = some held ∧ held.sameHolder owner = true
  | .releaseMoved owner => w.Given p owner ∧
      ∃ moved, w.files (.release owner.token) = some (.whole moved) ∧ moved.sameHolder owner = true
  | .releaseUnlink owner => w.Given p owner ∧ w.files (.release owner.token) ≠ none
  | .releaseRmdir owner => w.Given p owner ∧ w.files (.release owner.token) = some .missing
  -- nothing is ever found changed, so nothing is put back
  | .reclaimExists _ | .reclaimRestore _ | .releaseExists _ | .releaseRestore _ => False

structure Sound : Prop where
  fresh : ∀ token, w.issuer token = none →
    w.files (.acquire token) = none ∧ w.files (.release token) = none
  lock : ∀ dir, w.files .lock = some dir → ∃ owner, dir = .whole owner ∧
    w.issuer owner.token = some owner.pid ∧
    (w.Alive owner.pid → (w.processes owner.pid).held = some owner)
  held : ∀ p owner, w.Alive p → (w.processes p).held = some owner →
    w.files .lock = some (.whole owner) ∧ owner.pid = p ∧ w.files (.release owner.token) = none
  reclaim : ∀ p, (w.processes p).call.InReclaim → w.files .reclaim = some .missing
  alone : ∀ p q, (w.processes p).call.InReclaim → (w.processes q).call.InReclaim → p = q
  knows : ∀ p, w.Knows p (w.processes p).call
  crashed : ∀ p, ¬ w.Alive p → (w.processes p).call = .idle

end World

/-! ### What a step does to the other processes -/

namespace World

/-- A step of `p` leaves to the others what is theirs: their private directories, the reclaim
directory and what is under it unless they are outside, and a lock that somebody else may rely on. -/
structure Effect (w : World) (p : ℕ) (w' : World) : Prop where
  others : ∀ q, q ≠ p → w'.processes q = w.processes q
  mine : w.Alive p
  issuer : ∀ token, w.issuer token ≠ none → w'.issuer token = w.issuer token
  acquire : ∀ token, w.issuer token ≠ some p → w'.files (.acquire token) = w.files (.acquire token)
  release : ∀ token, w.issuer token ≠ some p → w'.files (.release token) = w.files (.release token)
  dead : (∀ token, w'.files (.dead token) = w.files (.dead token)) ∨ (w.processes p).call.InReclaim
  reclaim : w'.files .reclaim = w.files .reclaim ∨ (w.processes p).call.InReclaim ∨
    w.files .reclaim = none
  lock : w'.files .lock = w.files .lock ∨ ∀ owner, w.files .lock = some (.whole owner) →
    owner.pid = p ∨ (w.processes p).call.InReclaim ∧ ¬ w.Alive owner.pid

namespace Effect

variable {w w' : World} {p q : ℕ}

theorem alive_iff (he : w.Effect p w') (h : q ≠ p) : w'.Alive q ↔ w.Alive q := by
  unfold Alive
  rw [he.others q h]

/-- Nobody comes back. -/
theorem not_alive (he : w.Effect p w') (h : ¬ w.Alive q) : ¬ w'.Alive q := by
  have hne : q ≠ p := by
    rintro rfl
    exact h he.mine
  rwa [he.alive_iff hne]

theorem issued (he : w.Effect p w') {token : String} {r : ℕ} (h : w.issuer token = some r) :
    w'.issuer token = some r := by
  rw [he.issuer token (by simp [h]), h]

/-- A lock on which `q` relies stays. -/
theorem lock_of_held (he : w.Effect p w') (hs : w.Sound) (hne : q ≠ p) {owner : Owner}
    (halive : w.Alive q) (h : (w.processes q).held = some owner) :
    w'.files .lock = some (.whole owner) := by
  obtain ⟨hlock, hpid, -⟩ := hs.held q owner halive h
  rcases he.lock with heq | hgone
  · rw [heq, hlock]
  · rcases hgone owner hlock with hmine | ⟨-, hdead⟩
    · exact absurd (hpid.symm.trans hmine) hne
    · exact absurd halive (hpid ▸ hdead)

theorem lock_of_reclaim (he : w.Effect p w') (hs : w.Sound) (hne : q ≠ p) {owner : Owner}
    (hcall : (w.processes q).call.InReclaim) (hdead : ¬ w.Alive owner.pid)
    (h : w.files .lock = some (.whole owner)) : w'.files .lock = some (.whole owner) := by
  rcases he.lock with heq | hgone
  · rw [heq, h]
  · rcases hgone owner h with hmine | ⟨hp, -⟩
    · exact absurd (hmine ▸ he.mine) hdead
    · exact absurd (hs.alone q p hcall hp) hne

theorem drawn (he : w.Effect p w') (hne : q ≠ p) {owner : Owner} (h : w.Drawn q owner) :
    w'.Drawn q owner := by
  obtain ⟨hpid, hissuer, hrelease⟩ := h
  have hother : w.issuer owner.token ≠ some p := by
    rw [hissuer]
    exact fun h => hne (Option.some.inj h)
  exact ⟨hpid, he.issued hissuer, by rw [he.release _ hother, hrelease]⟩

theorem knows (he : w.Effect p w') (hs : w.Sound) (hne : q ≠ p) :
    w'.Knows q (w'.processes q).call := by
  rw [he.others q hne]
  have hk := hs.knows q
  have hown : ∀ {token : String}, w.issuer token = some q → w.issuer token ≠ some p := by
    intro token h
    rw [h]
    exact fun h => hne (Option.some.inj h)
  have hgiven : ∀ {owner : Owner}, w.Given q owner → w'.Given q owner := by
    rintro owner ⟨hissuer, hheld⟩
    exact ⟨he.issued hissuer, by rw [he.others q hne, hheld]⟩
  cases hcall : (w.processes q).call <;> rw [hcall] at hk <;> simp only [Knows] at hk ⊢
  case stageMkdir owner | stageOpen owner | stageWrite owner | stageRename owner =>
    exact ⟨he.drawn hne hk.1, by rw [he.acquire _ (hown hk.1.2.1), hk.2]⟩
  case unstageFile owner error | unstageDir owner error => exact he.issued hk
  case reclaimMkdir observed | reclaimRead observed => exact he.not_alive hk
  case reclaimAlive current | reclaimRename current =>
    exact ⟨he.not_alive hk.1, he.lock_of_reclaim hs hne (hcall ▸ trivial) hk.1 hk.2⟩
  case reclaimMoved current =>
    rcases he.dead with heq | hp
    · rw [heq, hk]
    · exact absurd (hs.alone q p (hcall ▸ trivial) hp) hne
  case releaseRead owner => exact hk
  case releaseRename owner => rwa [he.others q hne]
  case releaseMoved owner =>
    exact ⟨hgiven hk.1, by rw [he.release _ (hown hk.1.1)]; exact hk.2⟩
  case releaseUnlink owner | releaseRmdir owner =>
    exact ⟨hgiven hk.1, by rw [he.release _ (hown hk.1.1)]; exact hk.2⟩

end Effect

variable {w w' : World} {p : ℕ}

/-- A step keeps `Sound` if the process that takes it finds what it needs afterwards. -/
theorem Sound.of_effect (hs : w.Sound) (he : w.Effect p w')
    (hlock : ∀ dir, w'.files .lock = some dir → ∃ owner, dir = .whole owner ∧
      w'.issuer owner.token = some owner.pid ∧
      (owner.pid = p → w'.Alive p → (w'.processes p).held = some owner) ∧
      (owner.pid ≠ p → w.files .lock = some (.whole owner)))
    (hheld : ∀ owner, w'.Alive p → (w'.processes p).held = some owner →
      w'.files .lock = some (.whole owner) ∧ owner.pid = p ∧ w'.files (.release owner.token) = none)
    (hreclaim : (w'.processes p).call.InReclaim → w'.files .reclaim = some .missing ∧
      ((w.processes p).call.InReclaim ∨ w.files .reclaim = none))
    (hknows : w'.Knows p (w'.processes p).call)
    (hcrashed : ¬ w'.Alive p → (w'.processes p).call = .idle) : w'.Sound := by
  -- a process other than `p` that is inside was there before, and `p` is not
  have hinside : ∀ q, q ≠ p → (w'.processes q).call.InReclaim →
      (w.processes q).call.InReclaim ∧ ¬ (w.processes p).call.InReclaim ∧ w.files .reclaim ≠ none := by
    intro q hne hq
    rw [he.others q hne] at hq
    refine ⟨hq, fun hp => hne (hs.alone q p hq hp), ?_⟩
    rw [hs.reclaim q hq]
    exact Option.some_ne_none _
  constructor
  case fresh =>
    intro token hnone
    have hold : w.issuer token = none := by
      by_contra hsome
      rw [he.issuer token hsome] at hnone
      exact hsome hnone
    have hnot : w.issuer token ≠ some p := by simp [hold]
    obtain ⟨hacquire, hrelease⟩ := hs.fresh token hold
    exact ⟨by rw [he.acquire token hnot, hacquire], by rw [he.release token hnot, hrelease]⟩
  case lock =>
    intro dir hdir
    obtain ⟨owner, rfl, hissuer, hmine, hother⟩ := hlock dir hdir
    refine ⟨owner, rfl, hissuer, fun halive => ?_⟩
    by_cases hpid : owner.pid = p
    · rw [hpid] at halive ⊢
      exact hmine hpid halive
    · obtain ⟨owner', heq, -, hheld'⟩ := hs.lock _ (hother hpid)
      obtain rfl : owner = owner' := by simpa using heq
      rw [he.others _ hpid]
      exact hheld' ((he.alive_iff hpid).mp halive)
  case held =>
    intro q owner halive h
    by_cases hne : q = p
    · subst hne
      exact hheld owner halive h
    · have hold := (he.alive_iff hne).mp halive
      rw [he.others q hne] at h
      obtain ⟨hl, hpid, hrelease⟩ := hs.held q owner hold h
      obtain ⟨owner', heq, hissuer, -⟩ := hs.lock _ hl
      obtain rfl : owner = owner' := by simpa using heq
      refine ⟨he.lock_of_held hs hne hold h, hpid, ?_⟩
      rw [he.release _ (by rw [hissuer, hpid]; exact fun h => hne (Option.some.inj h)), hrelease]
  case reclaim =>
    intro q hq
    by_cases hne : q = p
    · subst hne
      exact (hreclaim hq).1
    · obtain ⟨hold, hp, hsome⟩ := hinside q hne hq
      rcases he.reclaim with heq | hp' | hnone
      · rw [heq]
        exact hs.reclaim q hold
      · exact absurd hp' hp
      · exact absurd hnone hsome
  case alone =>
    -- when `p` is inside now, it was alone inside before or nobody was
    have hmine : ∀ q, (w'.processes p).call.InReclaim → (w'.processes q).call.InReclaim → q = p := by
      intro q hp hq
      by_contra hne
      obtain ⟨-, hnot, hsome⟩ := hinside q hne hq
      exact (hreclaim hp).2.elim hnot hsome
    intro q r hq hr
    by_cases hqp : q = p
    · subst hqp
      exact (hmine r hq hr).symm
    · by_cases hrp : r = p
      · subst hrp
        exact hmine q hr hq
      · exact hs.alone q r (hinside q hqp hq).1 (hinside r hrp hr).1
  case knows =>
    intro q
    by_cases hne : q = p
    · subst hne
      exact hknows
    · exact he.knows hs hne
  case crashed =>
    intro q hdead
    by_cases hne : q = p
    · subst hne
      exact hcrashed hdead
    · rw [he.others q hne]
      exact hs.crashed q (fun h => hdead ((he.alive_iff hne).mpr h))

/-- What `p` may change with others in the middle of theirs. -/
def Owned (w : World) (p : ℕ) : Path → Prop
  | .acquire token => w.issuer token = some p
  | .release token => w.issuer token = some p ∧ (w.processes p).held = none
  | .dead _ => (w.processes p).call.InReclaim
  | .reclaim => (w.processes p).call.InReclaim ∨ w.files .reclaim = none
  | .lock => False

/-- A step that changes at most one directory, not the lock. -/
theorem Sound.of_moves (hs : w.Sound) {call : Call} (hm : w.Moves p w' call) (halive : w.Alive p)
    (hfiles : w'.files = w.files ∨ ∃ path dir, w'.files = w.files.set path dir ∧ w.Owned p path)
    (hin : call.InReclaim → w'.files .reclaim = some .missing ∧
      ((w.processes p).call.InReclaim ∨ w.files .reclaim = none))
    (hknows : w'.Knows p call) : w.Effect p w' ∧ w'.Sound := by
  have hsame : ∀ path, ¬ w.Owned p path → w'.files path = w.files path := by
    intro path hpath
    rcases hfiles with heq | ⟨path', dir, heq, howned⟩
    · rw [heq]
    · rw [heq, Files.set, Function.update_of_ne]
      rintro rfl
      exact hpath howned
  have halive' : w'.Alive p := by
    unfold Alive
    rw [hm.alive]
    exact halive
  have hlock : w'.files .lock = w.files .lock := hsame .lock id
  have he : w.Effect p w' := by
    constructor
    case others => exact hm.others
    case mine => exact halive
    case issuer => exact fun token _ => by rw [hm.issuer]
    case acquire => exact fun token h => hsame _ h
    case release => exact fun token h => hsame _ (fun h' => h h'.1)
    case dead =>
      by_cases hp : (w.processes p).call.InReclaim
      · exact .inr hp
      · exact .inl (fun token => hsame _ hp)
    case reclaim =>
      by_cases hp : (w.processes p).call.InReclaim ∨ w.files .reclaim = none
      · exact .inr hp
      · exact .inl (hsame _ hp)
    case lock => exact .inl hlock
  refine ⟨he, hs.of_effect he ?_ ?_ ?_ ?_ ?_⟩
  · intro dir hdir
    rw [hlock] at hdir
    obtain ⟨owner, rfl, hissuer, hheld⟩ := hs.lock dir hdir
    refine ⟨owner, rfl, by rw [hm.issuer, hissuer], ?_, fun _ => hdir⟩
    rintro rfl halive
    rw [hm.held]
    exact hheld he.mine
  · intro owner _ hheld
    rw [hm.held] at hheld
    obtain ⟨hl, hpid, hrelease⟩ := hs.held p owner halive hheld
    refine ⟨by rw [hlock, hl], hpid, ?_⟩
    rw [hsame, hrelease]
    rintro ⟨-, hnone⟩
    rw [hnone] at hheld
    cases hheld
  · rw [hm.call]
    exact hin
  · rw [hm.call]
    exact hknows
  · exact fun h => absurd halive' h

theorem Moves.knows {call call' : Call} (hm : w.Moves p w' call)
    (h : (w.withFiles w'.files).Knows p call') : w'.Knows p call' := by
  have halive : ∀ q, w'.Alive q ↔ (w.withFiles w'.files).Alive q := by
    intro q
    simp only [Alive, withFiles_processes]
    by_cases hne : q = p
    · rw [hne, hm.alive]
    · rw [hm.others q hne]
  have heq : w'.Knows p call' ↔ (w.withFiles w'.files).Knows p call' := by
    cases call' <;> simp only [Knows, Drawn, Given, withFiles_files, withFiles_issuer,
      withFiles_processes, hm.issuer, hm.held, halive]
  exact heq.mpr h

/-- A step without access to the files. -/
theorem Sound.goto (hs : w.Sound) (halive : w.Alive p) {call : Call}
    (hin : call.InReclaim → (w.processes p).call.InReclaim) (hknows : w.Knows p call) :
    w.Effect p (w.goto p call) ∧ (w.goto p call).Sound :=
  hs.of_moves (moves_goto w.files) halive (.inl rfl) (fun h => ⟨hs.reclaim p (hin h), .inl (hin h)⟩)
    ((moves_goto w.files).knows hknows)

theorem Sound.finish (hs : w.Sound) (halive : w.Alive p) {ended : Ended} :
    w.Effect p (w.finish p ended) ∧ (w.finish p ended).Sound :=
  hs.of_moves (moves_finish w.files) halive (.inl rfl) (fun h => h.elim) trivial

/-- A step that writes a directory of its own. -/
theorem Sound.set (hs : w.Sound) (halive : w.Alive p) {path : Path} {dir : Option OwnerFile} {call : Call}
    (howned : w.Owned p path) (hin : call.InReclaim → w.files.set path dir .reclaim = some .missing ∧
      ((w.processes p).call.InReclaim ∨ w.files .reclaim = none))
    (hknows : (w.withFiles (w.files.set path dir)).Knows p call) :
    w.Effect p ((w.withFiles (w.files.set path dir)).goto p call) ∧
      ((w.withFiles (w.files.set path dir)).goto p call).Sound :=
  hs.of_moves (moves_goto _) halive (.inr ⟨path, dir, rfl, howned⟩) hin ((moves_goto _).knows hknows)

end World

/-! ### Accesses to the files -/

namespace Files

variable {files files' : Files} {path source target : Path} {error : FsError}

@[simp] theorem set_self (dir : Option OwnerFile) : files.set path dir path = dir :=
  Function.update_self ..

theorem set_ne {path' : Path} (dir : Option OwnerFile) (h : path' ≠ path) :
    files.set path dir path' = files path' := Function.update_of_ne h ..

theorem mkdir_ok : files.mkdir path = .ok files' ↔
    files path = none ∧ files.set path (some .missing) = files' := by
  unfold mkdir
  split <;> simp [*]

theorem openOwner_ok : files.openOwner path = .ok files' ↔
    files path = some .missing ∧ files.set path (some .torn) = files' := by
  unfold openOwner
  split <;> simp_all

theorem unlinkOwner_ok : files.unlinkOwner path = .ok files' ↔
    files path ≠ none ∧ files.set path (some .missing) = files' := by
  unfold unlinkOwner
  split <;> simp [*]

theorem rmdir_ok : files.rmdir path = .ok files' ↔
    files path = some .missing ∧ files.set path none = files' := by
  unfold rmdir
  split <;> simp_all

theorem readOwner_ok {owner : Owner} :
    files.readOwner path = .ok owner ↔ files path = some (.whole owner) := by
  unfold readOwner
  split <;> simp [*]

theorem rename_ok : files.rename source target = .ok files' ↔ ∃ dir, files source = some dir ∧
    (files target = none ∨ files target = some .missing) ∧
    (files.set target (some dir)).set source none = files' := by
  unfold rename
  split
  · simp [*]
  · split <;> simp_all

end Files

/-! ### Every step is sound -/

namespace World

variable {hostname : String} {w w' : World} {p : ℕ} {draw : Draw} {call : Call}

theorem Sound.retry (hs : w.Sound) (halive : w.Alive p) :
    w.Effect p (w.retry p draw) ∧ (w.retry p draw).Sound := by
  unfold World.retry
  split
  · exact hs.finish halive
  · exact hs.goto halive (fun h => h.elim) trivial

theorem Drawn.set {owner : Owner} {token : String} {dir : Option OwnerFile} (h : w.Drawn p owner) :
    (w.withFiles (w.files.set (.acquire token) dir)).Drawn p owner := by
  obtain ⟨hpid, hissuer, hrelease⟩ := h
  refine ⟨hpid, hissuer, ?_⟩
  rw [withFiles_files, Files.set_ne _ (by simp), hrelease]

/-- The private directory of `p` is removed. -/
theorem Sound.unstageDir (hs : w.Sound) (halive : w.Alive p) {owner : Owner} {error : FsError}
    (hissuer : w.issuer owner.token = some p)
    (h : w.acquireStep hostname p draw (.unstageDir owner error) = some w') :
    w.Effect p w' ∧ w'.Sound := by
  simp only [acquireStep] at h
  cases hfiles : w.files.rmdir (.acquire owner.token) with
  | ok files =>
      obtain ⟨-, rfl⟩ := Files.rmdir_ok.mp hfiles
      rw [hfiles] at h
      simp only at h
      split at h <;> obtain rfl := Option.some.inj h
      · exact hs.set halive hissuer (fun h => h.elim) trivial
      · exact hs.of_moves (moves_finish _) halive (.inr ⟨_, _, rfl, hissuer⟩) (fun h => h.elim) trivial
  | error e =>
      rw [hfiles] at h
      simp only at h
      split at h <;> obtain rfl := Option.some.inj h
      · exact hs.goto halive (fun h => h.elim) trivial
      · exact hs.finish halive

/-- A new token is drawn. -/
theorem Sound.drawToken (hs : w.Sound) (halive : w.Alive p) {owner : Owner} (hpid : owner.pid = p)
    (hnew : w.issuer owner.token = none) (hw : w' =
      { w with issuer := Function.update w.issuer owner.token (some p) }.goto p (.stageMkdir owner)) :
    w.Effect p w' ∧ w'.Sound := by
  subst hw
  obtain ⟨hacquire, hrelease⟩ := hs.fresh owner.token hnew
  have hissued : ∀ token, w.issuer token ≠ none →
      Function.update w.issuer owner.token (some p) token = w.issuer token := by
    intro token h
    rw [Function.update_of_ne]
    rintro rfl
    exact h hnew
  have he : w.Effect p ({ w with issuer := Function.update w.issuer owner.token (some p) }.goto p
      (.stageMkdir owner)) :=
    ⟨fun _ h => setProcess_ne _ h, halive, hissued, fun _ _ => rfl, fun _ _ => rfl,
      .inl fun _ => rfl, .inl rfl, .inl rfl⟩
  refine ⟨he, hs.of_effect he ?_ ?_ ?_ ?_ ?_⟩
  · intro dir hdir
    obtain ⟨other, rfl, hissuer, hheld⟩ := hs.lock dir hdir
    refine ⟨other, rfl, he.issued hissuer, ?_, fun _ => hdir⟩
    rintro rfl -
    simpa [World.goto] using hheld halive
  · intro other _ hheld
    exact hs.held p other halive (by simpa [World.goto] using hheld)
  · intro h
    simp [World.goto, Call.InReclaim] at h
  · simp only [World.goto, setProcess_self, Knows, Drawn, setProcess_files, setProcess_issuer]
    exact ⟨⟨hpid, Function.update_self .., hrelease⟩, hacquire⟩
  · intro h
    exact absurd (by simpa [World.goto, Alive] using halive) h

/-- The staged directory becomes the lock. -/
theorem Sound.acquired (hs : w.Sound) (halive : w.Alive p) {owner : Owner} {files : Files}
    (hdrawn : w.Drawn p owner) (hstaged : w.files (.acquire owner.token) = some (.whole owner))
    (h : w.files.rename (.acquire owner.token) .lock = .ok files)
    (hw : w' = (w.withFiles files).setProcess p { w.processes p with
      call := .idle, held := some owner, ended := some (.acquired owner) }) :
    w.Effect p w' ∧ w'.Sound := by
  subst hw
  obtain ⟨hpid, hissuer, hrelease⟩ := hdrawn
  obtain ⟨dir, hdir, hfree, rfl⟩ := Files.rename_ok.mp h
  obtain rfl : OwnerFile.whole owner = dir := by simpa [hstaged] using hdir
  have hnone : ∀ other, w.files .lock ≠ some (.whole other) := by
    intro other hother
    rcases hfree with hfree | hfree <;> rw [hfree] at hother <;> cases hother
  have hlock : ((w.files.set .lock (some (.whole owner))).set (.acquire owner.token) none) .lock =
      some (.whole owner) := by
    rw [Files.set_ne _ (by simp), Files.set_self]
  have he : w.Effect p ((w.withFiles ((w.files.set .lock (some (.whole owner))).set
      (.acquire owner.token) none)).setProcess p { w.processes p with
        call := .idle, held := some owner, ended := some (.acquired owner) }) := by
    constructor
    case others => exact fun _ h => setProcess_ne _ h
    case mine => exact halive
    case issuer => exact fun _ _ => rfl
    case acquire =>
      intro token hne
      have hpath : Path.acquire token ≠ .acquire owner.token := by
        intro h
        cases h
        exact hne hissuer
      simp only [setProcess_files, withFiles_files]
      rw [Files.set_ne _ hpath, Files.set_ne _ (by simp)]
    case release =>
      intro token _
      simp only [setProcess_files, withFiles_files]
      rw [Files.set_ne _ (by simp), Files.set_ne _ (by simp)]
    case dead =>
      refine .inl (fun token => ?_)
      simp only [setProcess_files, withFiles_files]
      rw [Files.set_ne _ (by simp), Files.set_ne _ (by simp)]
    case reclaim =>
      refine .inl ?_
      simp only [setProcess_files, withFiles_files]
      rw [Files.set_ne _ (by simp), Files.set_ne _ (by simp)]
    case lock => exact .inr (fun other hother => absurd hother (hnone other))
  refine ⟨he, hs.of_effect he ?_ ?_ ?_ ?_ ?_⟩
  · intro dir hdir
    simp only [setProcess_files, withFiles_files, hlock, Option.some.injEq] at hdir
    subst hdir
    exact ⟨owner, rfl, by simpa [hpid] using hissuer, fun _ _ => by simp, fun h => absurd hpid h⟩
  · intro other _ hheld
    obtain rfl : owner = other := by simpa using hheld
    refine ⟨hlock, hpid, ?_⟩
    simp only [setProcess_files, withFiles_files]
    rw [Files.set_ne _ (by simp), Files.set_ne _ (by simp), hrelease]
  · intro h
    simp [Call.InReclaim] at h
  · simp [Knows]
  · simp

theorem Sound.acquireStep (hs : w.Sound) (halive : w.Alive p)
    (hcall : (w.processes p).call = call) (h : w.acquireStep hostname p draw call = some w') :
    w.Effect p w' ∧ w'.Sound := by
  have hknows := hs.knows p
  rw [hcall] at hknows
  cases call
  case unstageDir owner error => exact hs.unstageDir halive hknows h
  all_goals simp only [World.acquireStep] at h
  case acquireLoop =>
    split at h
    · obtain rfl := Option.some.inj h
      exact hs.retry halive
    · split at h
      · cases h
      · rename_i hnew
        obtain rfl := Option.some.inj h
        exact hs.drawToken halive rfl (not_not.mp hnew) rfl
  case stageMkdir owner =>
    obtain ⟨hdrawn, -⟩ := hknows
    split at h <;> obtain rfl := Option.some.inj h
    · rename_i files hfiles
      obtain ⟨-, rfl⟩ := Files.mkdir_ok.mp hfiles
      exact hs.set halive hdrawn.2.1 (fun h => h.elim) ⟨hdrawn.set, Files.set_self _⟩
    · exact hs.goto halive (fun h => h.elim) hdrawn.2.1
  case stageOpen owner =>
    obtain ⟨hdrawn, -⟩ := hknows
    split at h <;> obtain rfl := Option.some.inj h
    · rename_i files hfiles
      obtain ⟨-, rfl⟩ := Files.openOwner_ok.mp hfiles
      exact hs.set halive hdrawn.2.1 (fun h => h.elim) ⟨hdrawn.set, Files.set_self _⟩
    · exact hs.goto halive (fun h => h.elim) hdrawn.2.1
  case stageWrite owner =>
    obtain ⟨hdrawn, -⟩ := hknows
    obtain rfl := Option.some.inj h
    exact hs.set halive hdrawn.2.1 (fun h => h.elim) ⟨hdrawn.set, Files.set_self _⟩
  case stageRename owner =>
    obtain ⟨hdrawn, hstaged⟩ := hknows
    split at h <;> obtain rfl := Option.some.inj h
    · exact hs.acquired halive hdrawn hstaged ‹_› rfl
    · exact hs.goto halive (fun h => h.elim) hdrawn.2.1
  case unstageFile owner error =>
    split at h <;> obtain rfl := Option.some.inj h
    · rename_i files hfiles
      obtain ⟨-, rfl⟩ := Files.unlinkOwner_ok.mp hfiles
      exact hs.set halive hknows (fun h => h.elim) hknows
    · exact hs.goto halive (fun h => h.elim) hknows
  case observe =>
    split at h <;> obtain rfl := Option.some.inj h
    · exact hs.goto halive (fun h => h.elim) trivial
    · exact hs.goto halive (fun h => h.elim) trivial
    · exact hs.finish halive
  case observedAlive observed =>
    split at h <;> obtain rfl := Option.some.inj h
    · rename_i hdead
      refine hs.goto halive (fun h => h.elim) ?_
      simp only [ownerIsDeadOnThisHost, Bool.and_eq_true, Bool.not_eq_true'] at hdead
      simpa [Knows, Alive] using hdead.2
    · exact hs.retry halive
  all_goals cases h

/-- A dead owner's lock is moved to its tombstone. -/
theorem Sound.reclaimed (hs : w.Sound) (halive : w.Alive p) {current : Owner} {files : Files}
    (hcall : (w.processes p).call = .reclaimRename current) (hdead : ¬ w.Alive current.pid)
    (hlock : w.files .lock = some (.whole current))
    (h : w.files.rename .lock (.dead current.token) = .ok files) :
    w.Effect p ((w.withFiles files).goto p (.reclaimMoved current)) ∧
      ((w.withFiles files).goto p (.reclaimMoved current)).Sound := by
  obtain ⟨dir, hdir, -, rfl⟩ := Files.rename_ok.mp h
  obtain rfl : OwnerFile.whole current = dir := by simpa [hlock] using hdir
  have hin : (w.processes p).call.InReclaim := hcall ▸ trivial
  have hsame : ∀ path, path ≠ .lock → path ≠ .dead current.token →
      ((w.files.set (.dead current.token) (some (.whole current))).set .lock none) path =
        w.files path := by
    intro path hne hne'
    rw [Files.set_ne _ hne, Files.set_ne _ hne']
  have he : w.Effect p ((w.withFiles ((w.files.set (.dead current.token)
      (some (.whole current))).set .lock none)).goto p (.reclaimMoved current)) := by
    constructor
    case others => exact fun _ h => setProcess_ne _ h
    case mine => exact halive
    case issuer => exact fun _ _ => rfl
    case acquire => exact fun token _ => hsame (.acquire token) (by simp) (by simp)
    case release => exact fun token _ => hsame (.release token) (by simp) (by simp)
    case dead => exact .inr hin
    case reclaim => exact .inl (hsame .reclaim (by simp) (by simp))
    case lock =>
      refine .inr (fun owner howner => .inr ⟨hin, ?_⟩)
      obtain rfl : current = owner := by simpa [hlock] using howner
      exact hdead
  refine ⟨he, hs.of_effect he ?_ ?_ ?_ ?_ ?_⟩
  · intro dir hdir
    simp [World.goto] at hdir
  · intro owner _ hheld
    -- `p` lives, so the dead owner's lock was not its own
    obtain ⟨hl, hpid, -⟩ := hs.held p owner halive (by simpa [World.goto] using hheld)
    obtain rfl : current = owner := by simpa [hlock] using hl
    exact absurd (hpid ▸ halive) hdead
  · intro _
    exact ⟨(hsame .reclaim (by simp) (by simp)).trans (hs.reclaim p hin), .inl hin⟩
  · simp only [World.goto, setProcess_self, Knows, setProcess_files, withFiles_files]
    rw [Files.set_ne _ (by simp), Files.set_self]
  · intro h
    exact absurd (by simpa [World.goto, Alive] using halive) h

/-- The `finally` of `reclaimDeadOwner`. -/
theorem Sound.reclaimFinally (hs : w.Sound) (halive : w.Alive p) {outcome : Reclaim}
    (hcall : (w.processes p).call = .reclaimFinally outcome)
    (h : w.reclaimStep hostname p draw (.reclaimFinally outcome) = some w') :
    w.Effect p w' ∧ w'.Sound := by
  have hin : (w.processes p).call.InReclaim := hcall ▸ trivial
  have hrmdir : w.files.rmdir .reclaim = .ok (w.files.set .reclaim none) :=
    Files.rmdir_ok.mpr ⟨hs.reclaim p hin, rfl⟩
  have hfiles : ∀ w' : World, w'.files = w.files.set .reclaim none → w'.files = w.files ∨
      ∃ path dir, w'.files = w.files.set path dir ∧ w.Owned p path :=
    fun _ h => .inr ⟨.reclaim, none, h, .inl hin⟩
  simp only [reclaimStep, hrmdir] at h
  cases outcome with
  | threw =>
      obtain rfl := Option.some.inj h
      exact hs.of_moves (moves_finish _) halive (hfiles _ rfl) (fun h => h.elim) trivial
  | reclaimed =>
      obtain rfl := Option.some.inj h
      exact hs.of_moves (moves_goto _) halive (hfiles _ rfl) (fun h => h.elim) trivial
  | refused =>
      obtain rfl := Option.some.inj h
      obtain ⟨call, hor, hm⟩ := moves_retry (w.files.set .reclaim none)
      have hfree : ¬ call.InReclaim ∧ ∀ w' : World, w'.Knows p call := by
        rcases hor with rfl | rfl <;> exact ⟨id, fun _ => trivial⟩
      exact hs.of_moves hm halive (hfiles _ retry_files) (fun h => absurd h hfree.1) (hfree.2 _)

theorem Sound.reclaimStep (hs : w.Sound) (halive : w.Alive p)
    (hcall : (w.processes p).call = call) (h : w.reclaimStep hostname p draw call = some w') :
    w.Effect p w' ∧ w'.Sound := by
  have hknows := hs.knows p
  rw [hcall] at hknows
  cases call
  case reclaimFinally outcome => exact hs.reclaimFinally halive hcall h
  all_goals simp only [World.reclaimStep] at h
  case reclaimMkdir observed =>
    split at h <;> obtain rfl := Option.some.inj h
    · rename_i files hfiles
      obtain ⟨hnone, rfl⟩ := Files.mkdir_ok.mp hfiles
      exact hs.set halive (.inr hnone) (fun _ => ⟨Files.set_self _, .inr hnone⟩) hknows
    · exact hs.retry halive
  case reclaimRead observed =>
    have hin : (w.processes p).call.InReclaim := hcall ▸ trivial
    split at h
    · rename_i current hread
      split at h <;> obtain rfl := Option.some.inj h
      · rename_i heq
        subst heq
        exact hs.goto halive (fun _ => hin) ⟨hknows, Files.readOwner_ok.mp hread⟩
      · exact hs.goto halive (fun _ => hin) trivial
    · obtain rfl := Option.some.inj h
      exact hs.goto halive (fun _ => hin) trivial
  case reclaimAlive current =>
    split at h <;> obtain rfl := Option.some.inj h
    · exact hs.goto halive (fun _ => hcall ▸ trivial) hknows
    · exact hs.goto halive (fun _ => hcall ▸ trivial) trivial
  case reclaimRename current =>
    split at h <;> obtain rfl := Option.some.inj h
    · exact hs.reclaimed halive hcall hknows.1 hknows.2 ‹_›
    · exact hs.goto halive (fun _ => hcall ▸ trivial) trivial
  case reclaimMoved current =>
    have hread : w.files.readOwner (.dead current.token) = .ok current := Files.readOwner_ok.mpr hknows
    rw [hread] at h
    simp only [if_true] at h
    obtain rfl := Option.some.inj h
    exact hs.goto halive (fun _ => hcall ▸ trivial) trivial
  case reclaimUnlink current =>
    have hin : (w.processes p).call.InReclaim := hcall ▸ trivial
    split at h <;> obtain rfl := Option.some.inj h
    · rename_i files hfiles
      obtain ⟨-, rfl⟩ := Files.unlinkOwner_ok.mp hfiles
      exact hs.set halive hin
        (fun _ => ⟨(Files.set_ne _ (by simp)).trans (hs.reclaim p hin), .inl hin⟩) trivial
    · exact hs.goto halive (fun _ => hin) trivial
  case reclaimRmdir current =>
    have hin : (w.processes p).call.InReclaim := hcall ▸ trivial
    split at h <;> obtain rfl := Option.some.inj h
    · rename_i files hfiles
      obtain ⟨-, rfl⟩ := Files.rmdir_ok.mp hfiles
      exact hs.set halive hin
        (fun _ => ⟨(Files.set_ne _ (by simp)).trans (hs.reclaim p hin), .inl hin⟩) trivial
    · exact hs.goto halive (fun _ => hin) trivial
  case reclaimExists current | reclaimRestore current => exact hknows.elim
  all_goals cases h

theorem sameHolder_iff {current owner : Owner} : current.sameHolder owner = true ↔
    current.token = owner.token ∧ current.pid = owner.pid ∧ current.host = owner.host := by
  simp [Owner.sameHolder, and_assoc]

/-- The owner moves its lock away. -/
theorem Sound.released (hs : w.Sound) (halive : w.Alive p) {held owner : Owner} {files : Files}
    (hheld : (w.processes p).held = some held) (hsame : held.sameHolder owner = true)
    (h : w.files.rename .lock (.release owner.token) = .ok files)
    (hw : w' = (w.withFiles files).setProcess p
      { w.processes p with call := .releaseMoved owner, held := none }) :
    w.Effect p w' ∧ w'.Sound := by
  subst hw
  obtain ⟨hlock, hpid, -⟩ := hs.held p held halive hheld
  obtain ⟨held', heq, hissuer, -⟩ := hs.lock _ hlock
  obtain rfl : held = held' := by simpa using heq
  have htoken := (sameHolder_iff.mp hsame).1
  rw [htoken, hpid] at hissuer
  obtain ⟨dir, hdir, -, rfl⟩ := Files.rename_ok.mp h
  obtain rfl : OwnerFile.whole held = dir := by simpa [hlock] using hdir
  have hkeep : ∀ path, path ≠ .lock → path ≠ .release owner.token →
      ((w.files.set (.release owner.token) (some (.whole held))).set .lock none) path =
        w.files path := by
    intro path hne hne'
    rw [Files.set_ne _ hne, Files.set_ne _ hne']
  have he : w.Effect p ((w.withFiles ((w.files.set (.release owner.token)
      (some (.whole held))).set .lock none)).setProcess p
        { w.processes p with call := .releaseMoved owner, held := none }) := by
    constructor
    case others => exact fun _ h => setProcess_ne _ h
    case mine => exact halive
    case issuer => exact fun _ _ => rfl
    case acquire => exact fun token _ => hkeep (.acquire token) (by simp) (by simp)
    case release =>
      intro token hne
      refine hkeep (.release token) (by simp) ?_
      intro h
      cases h
      exact hne hissuer
    case dead => exact .inl (fun token => hkeep (.dead token) (by simp) (by simp))
    case reclaim => exact .inl (hkeep .reclaim (by simp) (by simp))
    case lock =>
      refine .inr (fun other hother => .inl ?_)
      obtain rfl : held = other := by simpa [hlock] using hother
      exact hpid
  refine ⟨he, hs.of_effect he ?_ ?_ ?_ ?_ ?_⟩
  · intro dir hdir
    simp at hdir
  · intro other _ hother
    simp at hother
  · intro h
    simp [Call.InReclaim] at h
  · simp only [setProcess_self, Knows, Given, setProcess_files, withFiles_files, setProcess_issuer,
      withFiles_issuer]
    refine ⟨⟨hissuer, trivial⟩, held, ?_, hsame⟩
    rw [Files.set_ne _ (by simp), Files.set_self]
  · intro h
    exact absurd (by simpa [Alive] using halive) h

theorem Sound.releaseStep (hs : w.Sound) (halive : w.Alive p)
    (hcall : (w.processes p).call = call) (h : w.releaseStep p call = some w') :
    w.Effect p w' ∧ w'.Sound := by
  have hknows := hs.knows p
  rw [hcall] at hknows
  cases call <;> simp only [World.releaseStep] at h
  case releaseRead owner =>
    split at h
    · rename_i current hread
      split at h <;> obtain rfl := Option.some.inj h
      · rename_i hsame
        -- the lock is that of a process with our id, which lives
        obtain ⟨other, heq, -, hheld⟩ := hs.lock _ (Files.readOwner_ok.mp hread)
        obtain rfl : current = other := by simpa using heq
        have hpid : current.pid = p := ((sameHolder_iff.mp hsame).2.1).trans hknows
        rw [hpid] at hheld
        exact hs.goto halive (fun h => h.elim) ⟨current, hheld halive, hsame⟩
      · exact hs.finish halive
    · obtain rfl := Option.some.inj h
      exact hs.finish halive
  case releaseRename owner =>
    obtain ⟨held, hheld, hsame⟩ := hknows
    split at h <;> obtain rfl := Option.some.inj h
    · exact hs.released halive hheld hsame ‹_› rfl
    · exact hs.finish halive
  case releaseMoved owner =>
    obtain ⟨hgiven, moved, hmoved, hsame⟩ := hknows
    rw [Files.readOwner_ok.mpr hmoved] at h
    simp only [hsame, if_true] at h
    obtain rfl := Option.some.inj h
    exact hs.goto halive (fun h => h.elim) ⟨hgiven, by rw [hmoved]; exact Option.some_ne_none _⟩
  case releaseUnlink owner =>
    obtain ⟨hgiven, -⟩ := hknows
    split at h <;> obtain rfl := Option.some.inj h
    · rename_i files hfiles
      obtain ⟨-, rfl⟩ := Files.unlinkOwner_ok.mp hfiles
      exact hs.set halive hgiven (fun h => h.elim) ⟨hgiven, Files.set_self _⟩
    · exact hs.finish halive
  case releaseRmdir owner =>
    obtain ⟨hgiven, -⟩ := hknows
    split at h <;> obtain rfl := Option.some.inj h
    · rename_i files hfiles
      obtain ⟨-, rfl⟩ := Files.rmdir_ok.mp hfiles
      exact hs.of_moves (moves_finish _) halive (.inr ⟨_, _, rfl, hgiven⟩) (fun h => h.elim) trivial
    · exact hs.finish halive
  case releaseExists owner | releaseRestore owner => exact hknows.elim
  all_goals cases h

theorem Sound.callStep (hs : w.Sound) (halive : w.Alive p)
    (h : w.callStep hostname p draw = some w') :
    w.Effect p w' ∧ w'.Sound := by
  simp only [World.callStep] at h
  rcases Option.or_eq_some_iff.mp h with h | ⟨-, h⟩
  · exact hs.acquireStep halive rfl h
  · rcases Option.or_eq_some_iff.mp h with h | ⟨-, h⟩
    · exact hs.reclaimStep halive rfl h
    · exact hs.releaseStep halive rfl h

/-- A process may crash anywhere. -/
theorem Sound.crash (hs : w.Sound) (halive : w.Alive p)
    (hw : w' = w.setProcess p { w.processes p with alive := false, call := .idle }) :
    w.Effect p w' ∧ w'.Sound := by
  subst hw
  have he : w.Effect p (w.setProcess p { w.processes p with alive := false, call := .idle }) :=
    ⟨fun _ h => setProcess_ne _ h, halive, fun _ _ => rfl, fun _ _ => rfl, fun _ _ => rfl,
      .inl fun _ => rfl, .inl rfl, .inl rfl⟩
  refine ⟨he, hs.of_effect he ?_ ?_ ?_ ?_ ?_⟩
  · intro dir hdir
    obtain ⟨owner, rfl, hissuer, hheld⟩ := hs.lock dir hdir
    refine ⟨owner, rfl, hissuer, ?_, fun _ => hdir⟩
    intro _ hdead
    simp [Alive] at hdead
  · intro owner hdead
    simp [Alive] at hdead
  · intro h
    simp [Call.InReclaim] at h
  · simp [Knows]
  · simp

theorem sound_init : Sound ⟨fun _ => none, fun _ => {}, fun _ => none⟩ := by
  constructor <;> simp [Alive, Call.InReclaim, Knows]

end World

open World

variable {hostname : String} {w w' : World} {p : ℕ}

theorem effect_of_step (hs : w.Sound) {action : LockAction}
    (h : (lockSystem hostname).step w action = some w') :
    w.Effect action.pid w' ∧ w'.Sound := by
  simp only [lockSystem] at h
  split at h
  · rename_i halive
    cases action with
    | acquire p =>
        simp only at h
        split at h
        · obtain rfl := Option.some.inj h
          exact hs.goto halive (fun h => h.elim) trivial
        · cases h
    | release p owner =>
        simp only at h
        split at h
        · rename_i hfree
          obtain rfl := Option.some.inj h
          exact hs.goto halive (fun h => h.elim) hfree.2
        · cases h
    | run p draw => exact hs.callStep halive h
    | crash p =>
        obtain rfl := Option.some.inj h
        exact hs.crash halive rfl
  · cases h

theorem sound_of_reachable (h : (lockSystem hostname).Reachable Free w) : w.Sound := by
  refine h.invariant ?_ (fun _ _ _ _ hs _ hstep => (effect_of_step hs hstep).2)
  rintro w rfl
  exact sound_init

/-! ### A release goes through -/

/-- `n` steps are left of the release of `owner` by `p`. -/
def ReleaseAt (w : World) (p : ℕ) (owner : Owner) : ℕ → Prop
  | 0 => (w.processes p).call = .idle ∧ (w.processes p).ended = some .released ∧
      (w.processes p).held = none
  | 1 => (w.processes p).call = .releaseRmdir owner
  | 2 => (w.processes p).call = .releaseUnlink owner
  | 3 => (w.processes p).call = .releaseMoved owner
  | 4 => (w.processes p).call = .releaseRename owner ∧ (w.processes p).held = some owner
  | 5 => (w.processes p).call = .releaseRead owner ∧ (w.processes p).held = some owner
  | _ => False

theorem sameHolder_self (owner : Owner) : owner.sameHolder owner = true :=
  sameHolder_iff.mpr ⟨rfl, rfl, rfl⟩

theorem callStep_release {draw : Draw} {call : Call} (hcall : (w.processes p).call = call)
    (hacquire : w.acquireStep hostname p draw call = none)
    (hreclaim : w.reclaimStep hostname p draw call = none) :
    w.callStep hostname p draw = w.releaseStep p call := by
  simp only [World.callStep, hcall, hacquire, hreclaim, Option.none_or]

/-- The next step of a release that has got so far is taken and finds what it needs. -/
theorem releaseAt_step (hostname : String) (draw : Draw) (hs : w.Sound) (halive : w.Alive p)
    {owner : Owner} {n : ℕ} (h : ReleaseAt w p owner (n + 1)) :
    ∃ w', w.callStep hostname p draw = some w' ∧ w'.Alive p ∧ ReleaseAt w' p owner n := by
  have hknows := hs.knows p
  match n, h with
  | 4, ⟨hcall, hheld⟩ =>
      have hread : w.files.readOwner .lock = .ok owner :=
        Files.readOwner_ok.mpr (hs.held p owner halive hheld).1
      have hstep : w.releaseStep p (.releaseRead owner) = some (w.goto p (.releaseRename owner)) := by
        simp only [releaseStep, hread, sameHolder_self, if_true]
      exact ⟨_, (callStep_release hcall rfl rfl).trans hstep, by simpa [Alive, goto] using halive,
        by simp [ReleaseAt, goto, hheld]⟩
  | 3, ⟨hcall, hheld⟩ =>
      obtain ⟨hlock, -, hfree⟩ := hs.held p owner halive hheld
      obtain ⟨files, hrename⟩ : ∃ files, w.files.rename .lock (.release owner.token) = .ok files :=
        ⟨_, Files.rename_ok.mpr ⟨_, hlock, .inl hfree, rfl⟩⟩
      have hstep : w.releaseStep p (.releaseRename owner) = some ((w.withFiles files).setProcess p
          { w.processes p with call := .releaseMoved owner, held := none }) := by
        simp only [releaseStep, hrename]
      exact ⟨_, (callStep_release hcall rfl rfl).trans hstep, by simpa [Alive] using halive,
        by simp [ReleaseAt]⟩
  | 2, hcall =>
      simp only [ReleaseAt] at hcall
      rw [hcall] at hknows
      obtain ⟨-, moved, hmoved, hsame⟩ := hknows
      have hstep : w.releaseStep p (.releaseMoved owner) = some (w.goto p (.releaseUnlink owner)) := by
        simp only [releaseStep, Files.readOwner_ok.mpr hmoved, hsame, if_true]
      exact ⟨_, (callStep_release hcall rfl rfl).trans hstep, by simpa [Alive, goto] using halive,
        by simp [ReleaseAt, goto]⟩
  | 1, hcall =>
      simp only [ReleaseAt] at hcall
      rw [hcall] at hknows
      obtain ⟨files, hunlink⟩ : ∃ files, w.files.unlinkOwner (.release owner.token) = .ok files :=
        ⟨_, Files.unlinkOwner_ok.mpr ⟨hknows.2, rfl⟩⟩
      have hstep : w.releaseStep p (.releaseUnlink owner) =
          some ((w.withFiles files).goto p (.releaseRmdir owner)) := by
        simp only [releaseStep, hunlink]
      exact ⟨_, (callStep_release hcall rfl rfl).trans hstep, by simpa [Alive, goto] using halive,
        by simp [ReleaseAt, goto]⟩
  | 0, hcall =>
      simp only [ReleaseAt] at hcall
      rw [hcall] at hknows
      obtain ⟨⟨-, hnone⟩, hmissing⟩ := hknows
      obtain ⟨files, hrmdir⟩ : ∃ files, w.files.rmdir (.release owner.token) = .ok files :=
        ⟨_, Files.rmdir_ok.mpr ⟨hmissing, rfl⟩⟩
      have hstep : w.releaseStep p (.releaseRmdir owner) =
          some ((w.withFiles files).finish p .released) := by
        simp only [releaseStep, hrmdir]
      exact ⟨_, (callStep_release hcall rfl rfl).trans hstep, by simpa [Alive, finish] using halive,
        by simp [ReleaseAt, finish, hnone]⟩

theorem releaseAt_busy {owner : Owner} {n : ℕ} (h : ReleaseAt w p owner (n + 1)) :
    (w.processes p).call ≠ .idle := by
  match n, h with
  | 0, hcall | 1, hcall | 2, hcall => rw [hcall]; exact Call.noConfusion
  | 3, ⟨hcall, _⟩ | 4, ⟨hcall, _⟩ => rw [hcall]; exact Call.noConfusion

/-- The steps of `p` in a list of actions. -/
def stepsOf (p : ℕ) (actions : List LockAction) : ℕ := actions.countP (fun action => action.pid = p)

/-- However the others interleave, a release gets on by one with every step of its process. -/
theorem releaseAt_run {owner : Owner} {actions : List LockAction} {n : ℕ} (hs : w.Sound)
    (h : (lockSystem hostname).Run Free w actions w') (hcrash : .crash p ∉ actions)
    (hn : stepsOf p actions ≤ n) (hat : ReleaseAt w p owner n) (halive : w.Alive p) :
    w'.Alive p ∧ ReleaseAt w' p owner (n - stepsOf p actions) := by
  induction h generalizing n with
  | refl w => exact ⟨halive, hat⟩
  | @step w w₁ w₂ action actions _ hstep _ ih =>
      obtain ⟨he, hs'⟩ := effect_of_step hs hstep
      have hcrash' : .crash p ∉ actions := fun h => hcrash (List.mem_cons_of_mem _ h)
      by_cases hpid : action.pid = p
      · have hcount : stepsOf p (action :: actions) = stepsOf p actions + 1 := by
          simp [stepsOf, hpid]
        rw [hcount] at hn ⊢
        obtain ⟨m, rfl⟩ : ∃ m, n = m + 1 := ⟨n - 1, by omega⟩
        have hbusy := releaseAt_busy hat
        cases action with
        | acquire q =>
            obtain rfl : q = p := hpid
            simp [lockSystem, hbusy] at hstep
        | release q owner =>
            obtain rfl : q = p := hpid
            simp [lockSystem, hbusy] at hstep
        | crash q =>
            obtain rfl : q = p := hpid
            exact absurd (List.mem_cons_self ..) hcrash
        | run q draw =>
            obtain rfl : q = p := hpid
            obtain ⟨w', hcall, halive', hnext⟩ := releaseAt_step hostname draw hs halive hat
            have hcall' : w.callStep hostname q draw = some w₁ := by
              simp only [lockSystem] at hstep
              split at hstep
              · exact hstep
              · cases hstep
            obtain rfl : w' = w₁ := by
              rw [hcall] at hcall'
              exact Option.some.inj hcall'
            rw [Nat.add_sub_add_right]
            exact ih hs' hcrash' (by omega) hnext halive'
      · have hcount : stepsOf p (action :: actions) = stepsOf p actions := by
          simp [stepsOf, hpid]
        rw [hcount] at hn ⊢
        have hsame := he.others p (fun h => hpid h.symm)
        refine ih hs' hcrash' hn ?_ ((he.alive_iff (fun h => hpid h.symm)).mpr halive)
        match n, hat with
        | 0, hat | 1, hat | 2, hat | 3, hat | 4, hat | 5, hat => simpa only [ReleaseAt, hsame] using hat

/-! ### The lock -/

/-- `p` lives and has acquired the lock and not yet moved it away. -/
def Holds (w : World) (p : ℕ) : Prop := w.Alive p ∧ (w.processes p).held ≠ none

/-- Mutual exclusion: at most one process holds the lock, nobody but its living owner moves it, and the
release of the process that holds it can always take its next step and succeeds with its fifth. -/
theorem envelope_lock (h : (lockSystem hostname).Reachable Free w) :
    (∀ p q, Holds w p → Holds w q → p = q) ∧
    (∀ action w', (lockSystem hostname).step w action = some w' → ∀ owner : Owner,
      w.files .lock = some (.whole owner) → w.Alive owner.pid →
      w'.files .lock = some (.whole owner) ∨ action.pid = owner.pid) ∧
    (∀ p owner, w.Alive p → (w.processes p).held = some owner → (w.processes p).call = .idle →
      ∃ w₁, (lockSystem hostname).step w (.release p owner) = some w₁ ∧
        ∀ actions w', (lockSystem hostname).Run Free w₁ actions w' → .crash p ∉ actions →
          (stepsOf p actions < 5 → ∀ draw, ∃ w'', (lockSystem hostname).step w' (.run p draw) = some w'') ∧
          (stepsOf p actions = 5 → (w'.processes p).call = .idle ∧
            (w'.processes p).ended = some .released ∧ (w'.processes p).held = none)) := by
  have hs := sound_of_reachable h
  refine ⟨?_, ?_, ?_⟩
  · rintro p q ⟨hp, hheldp⟩ ⟨hq, hheldq⟩
    obtain ⟨owner, hownerp⟩ := Option.ne_none_iff_exists'.mp hheldp
    obtain ⟨other, hownerq⟩ := Option.ne_none_iff_exists'.mp hheldq
    obtain ⟨hlockp, hpidp, -⟩ := hs.held p owner hp hownerp
    obtain ⟨hlockq, hpidq, -⟩ := hs.held q other hq hownerq
    obtain rfl : owner = other := by simpa [hlockp] using hlockq
    exact hpidp.symm.trans hpidq
  · intro action w' hstep owner hlock halive
    obtain ⟨he, -⟩ := effect_of_step hs hstep
    rcases he.lock with heq | hgone
    · exact .inl (heq.trans hlock)
    · rcases hgone owner hlock with hmine | ⟨-, hdead⟩
      · exact .inr hmine.symm
      · exact absurd halive hdead
  · intro p owner halive hheld hidle
    have hpid := (hs.held p owner halive hheld).2.1
    have hstart : (lockSystem hostname).step w (.release p owner) =
        some (w.goto p (.releaseRead owner)) := by
      have halive' : (w.processes p).alive = true := halive
      simp [lockSystem, LockAction.pid, halive', hidle, hpid]
    refine ⟨_, hstart, fun actions w' hrun hcrash => ?_⟩
    obtain ⟨-, hs₁⟩ := effect_of_step hs hstart
    have hat : ReleaseAt (w.goto p (.releaseRead owner)) p owner 5 := by
      simp [ReleaseAt, goto, hheld]
    have halive₁ : (w.goto p (.releaseRead owner)).Alive p := by
      simpa [Alive, goto] using halive
    have hs' : w'.Sound := hrun.invariant (fun _ _ _ hs _ hstep => (effect_of_step hs hstep).2) hs₁
    constructor
    · intro hsteps draw
      obtain ⟨halive', hat'⟩ := releaseAt_run hs₁ hrun hcrash hsteps.le hat halive₁
      obtain ⟨n, hn⟩ : ∃ n, 5 - stepsOf p actions = n + 1 := ⟨4 - stepsOf p actions, by omega⟩
      rw [hn] at hat'
      obtain ⟨w'', hcall, -⟩ := releaseAt_step hostname draw hs' halive' hat'
      refine ⟨w'', ?_⟩
      have halive'' : (w'.processes p).alive = true := halive'
      simp [lockSystem, LockAction.pid, halive'', hcall]
    · intro hsteps
      obtain ⟨-, hat'⟩ := releaseAt_run hs₁ hrun hcrash hsteps.le hat halive₁
      rw [hsteps] at hat'
      exact hat'

namespace Sample

def draws (token : String) : Draw := { token := token }

/-- Process 1 acquires the lock and crashes; process 2 finds it, reclaims it and acquires the lock. -/
def reclaimingRun : List LockAction :=
  .acquire 1 :: List.replicate 5 (.run 1 (draws "a")) ++
    [.acquire 2, .run 2 (draws "b"), .run 2 (draws "b"), .run 2 (draws "b"), .run 2 (draws "b"),
      .run 2 (draws "b"), .crash 1] ++ List.replicate 12 (.run 2 (draws "b")) ++
    List.replicate 5 (.run 2 (draws "c"))

def secondOwner : Owner := ⟨2, "c", "host", "", ""⟩

end Sample

theorem envelope_lock_sample : ∃ w, (lockSystem "host").Reachable Free w ∧ Holds w 2 ∧
    (∀ q, Holds w q → q = 2) ∧
    ∃ w₁, (lockSystem "host").step w (.release 2 Sample.secondOwner) = some w₁ := by
  have hrun : ((lockSystem "host").exec ⟨fun _ => none, fun _ => {}, fun _ => none⟩
      Sample.reclaimingRun).map (fun w => ((w.processes 2).alive, (w.processes 2).call,
        (w.processes 2).held)) = some (true, .idle, some Sample.secondOwner) := by
    decide +kernel
  obtain ⟨w, hexec, hstate⟩ := Option.map_eq_some_iff.mp hrun
  simp only [Prod.mk.injEq] at hstate
  obtain ⟨halive, hidle, hheld⟩ := hstate
  have hreach : (lockSystem "host").Reachable Free w := .of_exec rfl hexec
  obtain ⟨hexclusive, -, hrelease⟩ := envelope_lock hreach
  have hholds : Holds w 2 := ⟨halive, by rw [hheld]; exact Option.some_ne_none _⟩
  obtain ⟨w₁, hstart, -⟩ := hrelease 2 Sample.secondOwner halive hheld hidle
  exact ⟨w, hreach, hholds, fun q hq => hexclusive q 2 hq hholds, w₁, hstart⟩

end P42Prizes.EnvelopeLock
