import P42Prizes.LockLaws

/-! # Recovery of the lock after crashes

A process that crashes may leave the lock, a staged directory or a tombstone behind, and none of these keeps
a fresh process from the lock.  The reclaim directory does: it names no owner, and only the process that made
it removes it.  `Traced` says what the paths mean when nobody crashes inside a reclaim; the run of a fresh
process alone then gets one step closer to the lock with every step (`OnTrack`).

* `Shape`: what a step does to the lock, the reclaim directory and the tombstones.
* `lock_recovers`: recovery, in every run without a crash inside a reclaim.
* `reclaim_marker_stays`: a crash inside a reclaim, after which nobody ever acquires the lock. -/

namespace P42Prizes.EnvelopeLock

open Transition

/-! ### What a step does to the shared paths -/

/-- The owner record of the directory that the process is staging. -/
def Call.staged : Call → Option Owner
  | .stageMkdir owner | .stageOpen owner | .stageWrite owner | .stageRename owner => some owner
  | _ => none

theorem Call.not_inReclaim_of_staged {call : Call} {owner : Owner} (h : call.staged = some owner) :
    ¬ call.InReclaim := by
  cases call <;> first | exact id | cases h

namespace World

/-- Whether `p` is inside a reclaim. -/
def Inside (w : World) (p : ℕ) : Prop := (w.processes p).call.InReclaim

/-- Nobody crashes between making the reclaim directory and removing it. -/
def NoCrashInside (w : World) : LockAction → Prop
  | .crash p => ¬ w.Inside p
  | _ => True

instance (call : Call) : Decidable call.InReclaim := by
  cases call <;> first | exact isTrue trivial | exact isFalse id

instance (w : World) (action : LockAction) : Decidable (w.NoCrashInside action) :=
  match action with
  | .crash p => inferInstanceAs (Decidable (¬ (w.processes p).call.InReclaim))
  | .acquire _ | .release _ _ | .run _ _ => isTrue trivial

def stagedBy (w : World) (p : ℕ) : Option Owner := (w.processes p).call.staged

/-- The paths that processes share are the same. -/
structure Shared (files files' : Files) : Prop where
  lock : files' .lock = files .lock
  reclaim : files' .reclaim = files .reclaim
  dead : ∀ token, files' (.dead token) = files (.dead token)

/-- A step of `p`, by what it does to the shared paths. -/
inductive Shape (hostname : String) (w : World) (p : ℕ) (w' : World) : Prop
  | plain : Shared w.files w'.files → (w'.Inside p ↔ w.Inside p) →
      (∀ owner, w'.stagedBy p = some owner →
        w.stagedBy p = some owner ∨ owner.host = hostname ∧ w.issuer owner.token = none) →
      Shape hostname w p w'
  | acquired (owner : Owner) : w.stagedBy p = some owner → w.files .lock = none →
      w'.files .lock = some (.whole owner) → w'.files .reclaim = w.files .reclaim →
      (∀ token, w'.files (.dead token) = w.files (.dead token)) →
      (w'.processes p).call = .idle → Shape hostname w p w'
  | entered : w.files .reclaim = none → w'.files .reclaim ≠ none → w'.files .lock = w.files .lock →
      (∀ token, w'.files (.dead token) = w.files (.dead token)) → w'.Inside p →
      w'.stagedBy p = none → Shape hostname w p w'
  | moved (current : Owner) : w.Inside p → w.files .lock = some (.whole current) →
      ¬ w.Alive current.pid → w'.files .lock = none → w'.files .reclaim = w.files .reclaim →
      (∀ token, token ≠ current.token → w'.files (.dead token) = w.files (.dead token)) →
      w'.Inside p → w'.stagedBy p = none → Shape hostname w p w'
  | cleaned : w.Inside p → w'.files .lock = w.files .lock → w'.files .reclaim = w.files .reclaim →
      (∀ token, w.files (.dead token) = none → w'.files (.dead token) = none) →
      w'.Inside p → w'.stagedBy p = none → Shape hostname w p w'
  | left : w'.files .lock = w.files .lock → w'.files .reclaim = none →
      (∀ token, w'.files (.dead token) = w.files (.dead token)) → ¬ w'.Inside p → w'.stagedBy p = none →
      Shape hostname w p w'
  | released : w'.files .lock = none → w'.files .reclaim = w.files .reclaim →
      (∀ token, w'.files (.dead token) = w.files (.dead token)) → (w'.Inside p ↔ w.Inside p) →
      w'.stagedBy p = none → Shape hostname w p w'

section

variable {hostname : String} {w w' : World} {p : ℕ} {draw : Draw} {call : Call}

/-- A step without access to the shared paths, to a call that stages nothing new. -/
theorem Shape.of_moves (hm : w.Moves p w' call) (hshared : Shared w.files w'.files)
    (hin : call.InReclaim ↔ w.Inside p)
    (hstaged : ∀ owner, call.staged = some owner → w.stagedBy p = some owner) : w.Shape hostname p w' := by
  refine .plain hshared ?_ fun owner h => .inl (hstaged owner ?_)
  · unfold Inside
    rw [hm.call]
    exact hin
  · unfold stagedBy at h
    rwa [hm.call] at h

/-- The path of a directory that one process has for itself. -/
def Private (path : Path) : Prop := (∃ token, path = .acquire token) ∨ ∃ token, path = .release token

theorem Private.shared {path : Path} (h : Private path) (files : Files) (dir : Option OwnerFile) :
    Shared files (files.set path dir) := by
  have hne : ∀ other, ¬ Private other → files.set path dir other = files other := fun other hother =>
    Files.set_ne dir fun heq => hother (heq ▸ h)
  constructor
  · exact hne _ (by simp [Private])
  · exact hne _ (by simp [Private])
  · exact fun token => hne _ (by simp [Private])

/-- The process goes on without access to the files. -/
theorem Shape.goto (hin : call.InReclaim ↔ w.Inside p)
    (hstaged : ∀ owner, call.staged = some owner → w.stagedBy p = some owner) :
    w.Shape hostname p (w.goto p call) :=
  .of_moves (moves_goto w.files) ⟨rfl, rfl, fun _ => rfl⟩ hin hstaged

theorem Shape.finish {ended : Ended} (hin : ¬ w.Inside p) : w.Shape hostname p (w.finish p ended) :=
  .of_moves (moves_finish w.files) ⟨rfl, rfl, fun _ => rfl⟩ (iff_of_false id hin) (fun _ h => by cases h)

theorem Shape.retry (hin : ¬ w.Inside p) : w.Shape hostname p (w.retry p draw) := by
  unfold World.retry
  split
  · exact .finish hin
  · exact .goto (iff_of_false id hin) (fun _ h => by cases h)

/-- The process writes a directory of its own. -/
theorem Shape.set {path : Path} {dir : Option OwnerFile} (hpath : Private path)
    (hin : call.InReclaim ↔ w.Inside p)
    (hstaged : ∀ owner, call.staged = some owner → w.stagedBy p = some owner) :
    w.Shape hostname p ((w.withFiles (w.files.set path dir)).goto p call) :=
  .of_moves (moves_goto _) (hpath.shared w.files dir) hin hstaged

theorem shape_acquireStep (hs : w.Sound) (hcall : (w.processes p).call = call)
    (h : w.acquireStep hostname p draw call = some w') : w.Shape hostname p w' := by
  have hstagedBy : w.stagedBy p = call.staged := congrArg Call.staged hcall
  have hinside : w.Inside p ↔ call.InReclaim := iff_of_eq (congrArg Call.InReclaim hcall)
  have hknows := hs.knows p
  rw [hcall] at hknows
  cases call
  all_goals simp only [World.acquireStep] at h
  case acquireLoop =>
    split at h
    · obtain rfl := Option.some.inj h
      exact .retry (hinside.not.mpr id)
    · split at h
      · cases h
      · rename_i hnew
        obtain rfl := Option.some.inj h
        refine .plain ⟨rfl, rfl, fun _ => rfl⟩ ?_ fun owner howner => .inr ?_
        · simp [Inside, World.goto, hcall, Call.InReclaim]
        · simp only [stagedBy, World.goto, setProcess_self, Call.staged, Option.some.injEq] at howner
          subst howner
          exact ⟨rfl, not_not.mp hnew⟩
  case stageMkdir owner | stageOpen owner =>
    split at h <;> obtain rfl := Option.some.inj h
    · rename_i files hfiles
      first
        | obtain ⟨-, rfl⟩ := Files.mkdir_ok.mp hfiles
        | obtain ⟨-, rfl⟩ := Files.openOwner_ok.mp hfiles
      exact .set (.inl ⟨_, rfl⟩) hinside.symm fun _ h => hstagedBy.trans h
    · exact .goto hinside.symm fun _ h => by cases h
  case stageWrite owner =>
    obtain rfl := Option.some.inj h
    exact .set (.inl ⟨_, rfl⟩) hinside.symm fun _ h => hstagedBy.trans h
  case stageRename owner =>
    split at h <;> obtain rfl := Option.some.inj h
    · rename_i files hfiles
      obtain ⟨dir, hdir, hfree, rfl⟩ := Files.rename_ok.mp hfiles
      obtain rfl : OwnerFile.whole owner = dir := by simpa [hknows.2] using hdir
      have hlock : w.files .lock = none := by
        refine hfree.resolve_right fun hmissing => ?_
        obtain ⟨other, hother, -⟩ := hs.lock _ hmissing
        cases hother
      have hother : ∀ path, path ≠ .lock → path ≠ .acquire owner.token →
          ((w.files.set .lock (some (.whole owner))).set (.acquire owner.token) none) path = w.files path :=
        fun path hne hne' => by rw [Files.set_ne _ hne', Files.set_ne _ hne]
      refine .acquired owner hstagedBy hlock ?_ (hother .reclaim (by simp) (by simp))
        (fun token => hother (.dead token) (by simp) (by simp)) (by simp)
      rw [setProcess_files, withFiles_files, Files.set_ne _ (by simp), Files.set_self]
    · exact .goto hinside.symm fun _ h => by cases h
  case unstageFile owner error =>
    split at h <;> obtain rfl := Option.some.inj h
    · rename_i files hfiles
      obtain ⟨-, rfl⟩ := Files.unlinkOwner_ok.mp hfiles
      exact .set (.inl ⟨_, rfl⟩) hinside.symm fun _ h => by cases h
    · exact .goto hinside.symm fun _ h => by cases h
  case unstageDir owner error =>
    cases hfiles : w.files.rmdir (.acquire owner.token) with
    | ok files =>
        obtain ⟨-, rfl⟩ := Files.rmdir_ok.mp hfiles
        rw [hfiles] at h
        dsimp only at h
        split at h <;> obtain rfl := Option.some.inj h
        · exact .set (.inl ⟨_, rfl⟩) hinside.symm fun _ h => by cases h
        · exact .of_moves (moves_finish _) (Private.shared (.inl ⟨_, rfl⟩) _ _) hinside.symm fun _ h => by cases h
    | error e =>
        rw [hfiles] at h
        dsimp only at h
        split at h <;> obtain rfl := Option.some.inj h
        · exact .goto hinside.symm fun _ h => by cases h
        · exact .finish (hinside.not.mpr id)
  case observe =>
    split at h <;> obtain rfl := Option.some.inj h
    · exact .goto hinside.symm fun _ h => by cases h
    · exact .goto hinside.symm fun _ h => by cases h
    · exact .finish (hinside.not.mpr id)
  case observedAlive observed =>
    split at h <;> obtain rfl := Option.some.inj h
    · exact .goto hinside.symm fun _ h => by cases h
    · exact .retry (hinside.not.mpr id)
  all_goals cases h

/-- A step inside a reclaim that changes at most the tombstones. -/
theorem Shape.clean (hm : w.Moves p w' call) (hin : w.Inside p) (hcall : call.InReclaim)
    (hlock : w'.files .lock = w.files .lock) (hreclaim : w'.files .reclaim = w.files .reclaim)
    (hdead : ∀ token, w.files (.dead token) = none → w'.files (.dead token) = none) :
    w.Shape hostname p w' := by
  refine .cleaned hin hlock hreclaim hdead ?_ ?_
  · unfold Inside
    rwa [hm.call]
  · unfold stagedBy
    rw [hm.call]
    cases call <;> first | rfl | exact hcall.elim

theorem Shape.tombstone {token : String} {dir : Option OwnerFile} (hin : w.Inside p) (hcall : call.InReclaim)
    (hdir : w.files (.dead token) ≠ none ∨ dir = none) :
    w.Shape hostname p ((w.withFiles (w.files.set (.dead token) dir)).goto p call) := by
  have hsame : ∀ path, path ≠ .dead token → w.files.set (.dead token) dir path = w.files path :=
    fun path hne => Files.set_ne dir hne
  refine .clean (moves_goto _) hin hcall (hsame .lock (by simp)) (hsame .reclaim (by simp)) fun other hother => ?_
  show w.files.set (.dead token) dir (.dead other) = none
  by_cases heq : other = token
  · subst heq
    rw [Files.set_self]
    exact hdir.resolve_left fun hne => hne hother
  · rw [Files.set_ne _ (by simpa using heq)]
    exact hother

theorem shape_reclaimStep (hs : w.Sound) (hcall : (w.processes p).call = call)
    (h : w.reclaimStep hostname p draw call = some w') : w.Shape hostname p w' := by
  have hinside : w.Inside p ↔ call.InReclaim := iff_of_eq (congrArg Call.InReclaim hcall)
  have hknows := hs.knows p
  rw [hcall] at hknows
  have hstay : ∀ call', call.InReclaim → call'.InReclaim → w.Shape hostname p (w.goto p call') :=
    fun call' hin hin' => .clean (moves_goto w.files) (hinside.mpr hin) hin' rfl rfl fun _ hnone => hnone
  cases call
  all_goals simp only [World.reclaimStep] at h
  case reclaimMkdir observed =>
    split at h <;> obtain rfl := Option.some.inj h
    · rename_i files hfiles
      obtain ⟨hnone, rfl⟩ := Files.mkdir_ok.mp hfiles
      have hother : ∀ path, path ≠ .reclaim → w.files.set .reclaim (some .missing) path = w.files path :=
        fun path hne => Files.set_ne _ hne
      refine .entered hnone ?_ (hother .lock (by simp)) (fun token => hother (.dead token) (by simp)) ?_ ?_
      · show w.files.set .reclaim _ .reclaim ≠ none
        rw [Files.set_self]
        exact Option.some_ne_none _
      · simp [Inside, World.goto, Call.InReclaim]
      · simp [stagedBy, World.goto, Call.staged]
    · exact .retry (hinside.not.mpr id)
  case reclaimRead observed =>
    split at h
    · split at h <;> obtain rfl := Option.some.inj h
      · exact hstay _ trivial trivial
      · exact hstay _ trivial trivial
    · obtain rfl := Option.some.inj h
      exact hstay _ trivial trivial
  case reclaimAlive current =>
    split at h <;> obtain rfl := Option.some.inj h
    · exact hstay _ trivial trivial
    · exact hstay _ trivial trivial
  case reclaimRename current =>
    obtain ⟨hdead, hlock⟩ := hknows
    split at h <;> obtain rfl := Option.some.inj h
    · rename_i files hfiles
      obtain ⟨dir, -, -, rfl⟩ := Files.rename_ok.mp hfiles
      have hother : ∀ path, path ≠ .lock → path ≠ .dead current.token →
          ((w.files.set (.dead current.token) (some dir)).set .lock none) path = w.files path :=
        fun path hne hne' => by rw [Files.set_ne _ hne, Files.set_ne _ hne']
      have hgone : ((w.files.set (.dead current.token) (some dir)).set .lock none) .lock = none :=
        Files.set_self none
      refine .moved current (hinside.mpr trivial) hlock hdead hgone
        (hother .reclaim (by simp) (by simp)) (fun token hne => hother (.dead token) (by simp) (by simpa using hne))
        ?_ ?_
      · simp [Inside, World.goto, Call.InReclaim]
      · simp [stagedBy, World.goto, Call.staged]
    · exact hstay _ trivial trivial
  case reclaimMoved current =>
    split at h
    · split at h <;> obtain rfl := Option.some.inj h
      · exact hstay _ trivial trivial
      · exact hstay _ trivial trivial
    · obtain rfl := Option.some.inj h
      exact hstay _ trivial trivial
  case reclaimExists current | reclaimRestore current => exact hknows.elim
  case reclaimUnlink current =>
    split at h <;> obtain rfl := Option.some.inj h
    · rename_i files hfiles
      obtain ⟨hsome, rfl⟩ := Files.unlinkOwner_ok.mp hfiles
      exact .tombstone (hinside.mpr trivial) trivial (.inl hsome)
    · exact hstay _ trivial trivial
  case reclaimRmdir current =>
    split at h <;> obtain rfl := Option.some.inj h
    · rename_i files hfiles
      obtain ⟨-, rfl⟩ := Files.rmdir_ok.mp hfiles
      exact .tombstone (hinside.mpr trivial) trivial (.inr rfl)
    · exact hstay _ trivial trivial
  case reclaimFinally outcome =>
    have hrmdir : w.files.rmdir .reclaim = .ok (w.files.set .reclaim none) :=
      Files.rmdir_ok.mpr ⟨hs.reclaim p (hinside.mpr trivial), rfl⟩
    rw [hrmdir] at h
    have hother : ∀ path, path ≠ .reclaim → w.files.set .reclaim none path = w.files path :=
      fun path hne => Files.set_ne _ hne
    have hleft : ∀ {w' : World} {call : Call}, w.Moves p w' call → w'.files = w.files.set .reclaim none →
        call = .idle ∨ call = .acquireLoop → w.Shape hostname p w' := by
      intro w' call hm hfiles hcall
      refine .left ?_ ?_ (fun token => ?_) ?_ ?_
      · exact hfiles ▸ hother .lock (by simp)
      · exact hfiles ▸ Files.set_self _
      · exact hfiles ▸ hother (.dead token) (by simp)
      · unfold Inside
        rw [hm.call]
        rcases hcall with rfl | rfl <;> exact id
      · unfold stagedBy
        rw [hm.call]
        rcases hcall with rfl | rfl <;> rfl
    cases outcome <;> obtain rfl := Option.some.inj h
    · exact hleft (moves_finish _) rfl (.inl rfl)
    · obtain ⟨call, hor, hm⟩ := moves_retry (w := w) (p := p) (w.files.set .reclaim none)
      exact hleft hm retry_files hor
    · exact hleft (moves_goto _) rfl (.inr rfl)
  all_goals cases h

theorem shape_releaseStep (hs : w.Sound) (hcall : (w.processes p).call = call)
    (h : w.releaseStep p call = some w') : w.Shape hostname p w' := by
  have hinside : w.Inside p ↔ call.InReclaim := iff_of_eq (congrArg Call.InReclaim hcall)
  have hknows := hs.knows p
  rw [hcall] at hknows
  cases call
  all_goals simp only [World.releaseStep] at h
  case releaseRead owner =>
    split at h
    · split at h <;> obtain rfl := Option.some.inj h
      · exact .goto hinside.symm fun _ h => by cases h
      · exact .finish (hinside.not.mpr id)
    · obtain rfl := Option.some.inj h
      exact .finish (hinside.not.mpr id)
  case releaseRename owner =>
    split at h <;> obtain rfl := Option.some.inj h
    · rename_i files hfiles
      obtain ⟨dir, -, -, rfl⟩ := Files.rename_ok.mp hfiles
      have hother : ∀ path, path ≠ .lock → path ≠ .release owner.token →
          ((w.files.set (.release owner.token) (some dir)).set .lock none) path = w.files path :=
        fun path hne hne' => by rw [Files.set_ne _ hne, Files.set_ne _ hne']
      have hgone : ((w.files.set (.release owner.token) (some dir)).set .lock none) .lock = none :=
        Files.set_self none
      refine .released hgone (hother .reclaim (by simp) (by simp))
        (fun token => hother (.dead token) (by simp) (by simp)) ?_ ?_
      · simp [Inside, hcall, Call.InReclaim]
      · simp [stagedBy, Call.staged]
    · exact .finish (hinside.not.mpr id)
  case releaseMoved owner =>
    split at h
    · split at h <;> obtain rfl := Option.some.inj h
      · exact .goto hinside.symm fun _ h => by cases h
      · exact .goto hinside.symm fun _ h => by cases h
    · obtain rfl := Option.some.inj h
      exact .finish (hinside.not.mpr id)
  case releaseExists owner | releaseRestore owner => exact hknows.elim
  case releaseUnlink owner =>
    split at h <;> obtain rfl := Option.some.inj h
    · rename_i files hfiles
      obtain ⟨-, rfl⟩ := Files.unlinkOwner_ok.mp hfiles
      exact .set (.inr ⟨_, rfl⟩) hinside.symm fun _ h => by cases h
    · exact .finish (hinside.not.mpr id)
  case releaseRmdir owner =>
    split at h <;> obtain rfl := Option.some.inj h
    · rename_i files hfiles
      obtain ⟨-, rfl⟩ := Files.rmdir_ok.mp hfiles
      exact .of_moves (moves_finish _) (Private.shared (.inr ⟨_, rfl⟩) _ _) hinside.symm fun _ h => by cases h
    · exact .finish (hinside.not.mpr id)
  all_goals cases h

/-- A crash outside a reclaim leaves the shared paths alone. -/
theorem shape_of_step (hs : w.Sound) {action : LockAction}
    (hstep : (lockSystem hostname).step w action = some w')
    (hcrash : w.NoCrashInside action) : w.Shape hostname action.pid w' := by
  simp only [lockSystem] at hstep
  split at hstep
  · cases action with
    | acquire p =>
        dsimp only at hstep
        split at hstep <;> cases hstep
        rename_i hidle
        exact .goto (by simp [Inside, LockAction.pid, hidle, Call.InReclaim]) fun _ h => by cases h
    | release p owner =>
        dsimp only at hstep
        split at hstep <;> cases hstep
        rename_i hidle
        exact .goto (by simp [Inside, LockAction.pid, hidle.1, Call.InReclaim]) fun _ h => by cases h
    | run p draw =>
        change w.callStep hostname p draw = some w' at hstep
        rw [World.callStep] at hstep
        rcases Option.or_eq_some_iff.mp hstep with h | ⟨-, h⟩
        · exact shape_acquireStep hs rfl h
        · rcases Option.or_eq_some_iff.mp h with h | ⟨-, h⟩
          · exact shape_reclaimStep hs rfl h
          · exact shape_releaseStep hs rfl h
    | crash p =>
        obtain rfl := Option.some.inj hstep
        refine .plain ⟨rfl, rfl, fun _ => rfl⟩ (iff_of_false ?_ hcrash) fun owner h => ?_
        · simp [Inside, LockAction.pid, Call.InReclaim]
        · simp [stagedBy, LockAction.pid, Call.staged] at h
  · cases hstep

end

end World

/-! ### What the paths mean -/

open World

/-- The processes that have created a path so far. -/
def recordCreator (w : World) (action : LockAction) (w' : World) (creators : Set ℕ) : Set ℕ :=
  {q | q ∈ creators ∨ q = action.pid ∧ ∃ path, w.files path = none ∧ w'.files path ≠ none}

/-- The lock with the record of its creators. -/
def traced (hostname : String) : System (World × Set ℕ) LockAction :=
  (lockSystem hostname).withHistory ∅ recordCreator

/-- Every directory that stands in the way has its owner or a reclaimer among the creators. -/
structure Traced (hostname : String) (w : World) (creators : Set ℕ) : Prop where
  lock : ∀ owner, w.files .lock = some (.whole owner) →
    owner.host = hostname ∧ w.files (.dead owner.token) = none ∧ owner.pid ∈ creators
  staged : ∀ p owner, w.stagedBy p = some owner → owner.host = hostname ∧ w.files (.dead owner.token) = none
  fresh : ∀ token, w.issuer token = none → w.files (.dead token) = none
  inside : ∀ p, w.Inside p → p ∈ creators
  marker : w.files .reclaim ≠ none → ∃ p, w.Inside p

section

variable {hostname : String} {w w' : World} {creators : Set ℕ} {p : ℕ}

theorem issuer_of_staged (hs : w.Sound) {owner : Owner} (h : w.stagedBy p = some owner) :
    w.Drawn p owner := by
  have hknows := hs.knows p
  unfold stagedBy at h
  cases hcall : (w.processes p).call <;> rw [hcall] at h hknows <;> cases h <;> exact hknows.1

/-- What a step has to say about its own process. -/
theorem Traced.of_effect {creators' : Set ℕ} (h : Traced hostname w creators) (hs : w.Sound)
    (he : w.Effect p w') (hmono : creators ⊆ creators')
    (hlock : ∀ owner, w'.files .lock = some (.whole owner) → w.files .lock = some (.whole owner) ∨
      w.stagedBy p = some owner ∧ p ∈ creators')
    (hdead : ∀ token, w.files (.dead token) = none → w'.files (.dead token) = none ∨
      ∃ current, w.files .lock = some (.whole current) ∧ ¬ w.Alive current.pid ∧ w'.files .lock = none ∧
        token = current.token)
    (hstaged : ∀ owner, w'.stagedBy p = some owner → w.stagedBy p = some owner ∨
      owner.host = hostname ∧ w.issuer owner.token = none)
    (hinside : w'.Inside p → p ∈ creators')
    (hmarker : w'.files .reclaim ≠ none → w'.Inside p ∨ w.files .reclaim ≠ none ∧ ¬ w.Inside p) :
    Traced hostname w' creators' := by
  -- a tombstone is made for a token whose process is dead
  have hkept : ∀ token q, w.issuer token = some q → w.Alive q → w.files (.dead token) = none →
      w'.files (.dead token) = none := by
    intro token q hissuer halive hnone
    refine (hdead token hnone).resolve_right ?_
    rintro ⟨current, hcurrent, hnot, -, rfl⟩
    obtain ⟨owner, heq, howner, -⟩ := hs.lock _ hcurrent
    obtain rfl := OwnerFile.whole.inj heq
    obtain rfl := Option.some.inj (howner.symm.trans hissuer)
    exact hnot halive
  have hstagedAlive : ∀ q owner, w.stagedBy q = some owner → w.Alive q := by
    intro q owner howner
    by_contra hnot
    unfold stagedBy at howner
    rw [hs.crashed q hnot] at howner
    cases howner
  have hstagedDead : ∀ q owner, w.stagedBy q = some owner →
      owner.host = hostname ∧ w'.files (.dead owner.token) = none := fun q owner howner =>
    ⟨(h.staged q owner howner).1, hkept _ q (issuer_of_staged hs howner).2.1 (hstagedAlive q owner howner)
      (h.staged q owner howner).2⟩
  have hnew : ∀ token, w.issuer token = none → w'.files (.dead token) = none := by
    intro token hnone
    refine (hdead token (h.fresh token hnone)).resolve_right ?_
    rintro ⟨current, hcurrent, -, -, rfl⟩
    obtain ⟨owner, heq, howner, -⟩ := hs.lock _ hcurrent
    obtain rfl := OwnerFile.whole.inj heq
    rw [hnone] at howner
    cases howner
  constructor
  case lock =>
    intro owner howner
    rcases hlock owner howner with hold | ⟨hmine, hcreator⟩
    · obtain ⟨hhost, hnone, hpid⟩ := h.lock owner hold
      refine ⟨hhost, (hdead _ hnone).resolve_right ?_, hmono hpid⟩
      rintro ⟨-, -, -, hgone, -⟩
      rw [hgone] at howner
      cases howner
    · obtain ⟨hhost, hnone⟩ := hstagedDead p owner hmine
      exact ⟨hhost, hnone, (issuer_of_staged hs hmine).1 ▸ hcreator⟩
  case staged =>
    intro q owner howner
    by_cases hq : q = p
    · subst hq
      rcases hstaged owner howner with hold | ⟨hhost, hnone⟩
      · exact hstagedDead q owner hold
      · exact ⟨hhost, hnew _ hnone⟩
    · unfold stagedBy at howner
      rw [he.others q hq] at howner
      exact hstagedDead q owner howner
  case fresh =>
    intro token hnone
    refine hnew token ?_
    by_contra hsome
    rw [he.issuer token hsome] at hnone
    exact hsome hnone
  case inside =>
    intro q hq
    by_cases hqp : q = p
    · subst hqp
      exact hinside hq
    · unfold Inside at hq
      rw [he.others q hqp] at hq
      exact hmono (h.inside q hq)
  case marker =>
    intro hsome
    rcases hmarker hsome with hp | ⟨hold, hp⟩
    · exact ⟨p, hp⟩
    · obtain ⟨q, hq⟩ := h.marker hold
      refine ⟨q, ?_⟩
      unfold Inside
      rw [he.others q (fun heq => hp (heq ▸ hq))]
      exact hq

/-- Everything that one step does to the meaning of the paths. -/
theorem Traced.step (h : Traced hostname w creators) (hs : w.Sound) {action : LockAction}
    (hstep : (lockSystem hostname).step w action = some w') (hcrash : w.NoCrashInside action) :
    Traced hostname w' (recordCreator w action w' creators) := by
  have he := (effect_of_step hs hstep).1
  have hmono : creators ⊆ recordCreator w action w' creators := fun _ => .inl
  have hcreates : ∀ path, w.files path = none → w'.files path ≠ none →
      action.pid ∈ recordCreator w action w' creators := fun path hnone hsome => .inr ⟨rfl, path, hnone, hsome⟩
  have hstays : (w'.Inside action.pid ↔ w.Inside action.pid) → w'.files .reclaim = w.files .reclaim →
      w'.files .reclaim ≠ none → w'.Inside action.pid ∨ w.files .reclaim ≠ none ∧ ¬ w.Inside action.pid := by
    intro hin hreclaim hsome
    by_cases hp : w.Inside action.pid
    · exact .inl (hin.mpr hp)
    · exact .inr ⟨hreclaim ▸ hsome, hp⟩
  have hunstaged : ∀ owner, w'.stagedBy action.pid = none → w'.stagedBy action.pid = some owner →
      w.stagedBy action.pid = some owner ∨ owner.host = hostname ∧ w.issuer owner.token = none := by
    intro owner hnone howner
    rw [hnone] at howner
    cases howner
  cases shape_of_step hs hstep hcrash with
  | plain hshared hin hstaged =>
      refine h.of_effect hs he hmono (fun owner howner => .inl (hshared.lock ▸ howner))
        (fun token hnone => .inl ((hshared.dead token).trans hnone)) hstaged
        (fun hp => hmono (h.inside _ (hin.mp hp))) (hstays hin hshared.reclaim)
  | acquired owner hstaged hfree hlock hreclaim hdead hidle =>
      have hcreator := hcreates .lock hfree (hlock ▸ Option.some_ne_none _)
      have hnot : ¬ w'.Inside action.pid := by
        unfold Inside
        rw [hidle]
        exact id
      have hnot' : ¬ w.Inside action.pid := Call.not_inReclaim_of_staged hstaged
      refine h.of_effect hs he hmono (fun other hother => .inr ?_)
        (fun token hnone => .inl ((hdead token).trans hnone)) (fun other hother => ?_) (fun hp => absurd hp hnot)
        (hstays (iff_of_false hnot hnot') hreclaim)
      · obtain rfl := OwnerFile.whole.inj (Option.some.inj (hlock.symm.trans hother))
        exact ⟨hstaged, hcreator⟩
      · unfold stagedBy at hother
        rw [hidle] at hother
        cases hother
  | entered hfree hsome hlock hdead hin hnone =>
      exact h.of_effect hs he hmono (fun owner howner => .inl (hlock ▸ howner))
        (fun token hdeadNone => .inl ((hdead token).trans hdeadNone)) (fun owner => hunstaged owner hnone)
        (fun _ => hcreates .reclaim hfree hsome) (fun _ => .inl hin)
  | moved current hold hlock hdeadOwner hgone hreclaim hdead hin hnone =>
      refine h.of_effect hs he hmono (fun owner howner => ?_) (fun token hdeadNone => ?_)
        (fun owner => hunstaged owner hnone) (fun _ => hmono (h.inside _ hold)) (fun _ => .inl hin)
      · rw [hgone] at howner
        cases howner
      · by_cases htoken : token = current.token
        · exact .inr ⟨current, hlock, hdeadOwner, hgone, htoken⟩
        · exact .inl ((hdead token htoken).trans hdeadNone)
  | cleaned hold hlock hreclaim hdead hin hnone =>
      exact h.of_effect hs he hmono (fun owner howner => .inl (hlock ▸ howner))
        (fun token hdeadNone => .inl (hdead token hdeadNone)) (fun owner => hunstaged owner hnone)
        (fun _ => hmono (h.inside _ hold)) (fun _ => .inl hin)
  | left hlock hreclaim hdead hin hnone =>
      exact h.of_effect hs he hmono (fun owner howner => .inl (hlock ▸ howner))
        (fun token hdeadNone => .inl ((hdead token).trans hdeadNone)) (fun owner => hunstaged owner hnone)
        (fun hp => absurd hp hin) (fun hsome => absurd hreclaim hsome)
  | released hgone hreclaim hdead hin hnone =>
      refine h.of_effect hs he hmono (fun owner howner => ?_)
        (fun token hdeadNone => .inl ((hdead token).trans hdeadNone)) (fun owner => hunstaged owner hnone)
        (fun hp => hmono (h.inside _ (hin.mp hp))) (hstays hin hreclaim)
      rw [hgone] at howner
      cases howner

theorem traced_init : Traced hostname ⟨fun _ => none, fun _ => {}, fun _ => none⟩ ∅ where
  lock _ h := by cases h
  staged _ _ h := by cases h
  fresh _ _ := rfl
  inside _ h := h.elim
  marker h := absurd rfl h

theorem traced_of_reachable
    (h : (traced hostname).Reachable (fun s action => s.1.NoCrashInside action) (w, creators)) :
    w.Sound ∧ Traced hostname w creators := by
  refine h.invariant (P := fun s => s.1.Sound ∧ Traced hostname s.1 s.2) ?_ ?_
  · rintro ⟨w, creators⟩ ⟨hinit, rfl⟩
    obtain rfl : w = _ := hinit
    exact ⟨sound_init, traced_init⟩
  · rintro ⟨w, creators⟩ action ⟨w', creators'⟩ - ⟨hs, ht⟩ hcrash hstep
    obtain ⟨hstep, hcreators⟩ := System.withHistory_step.mp hstep
    exact ⟨(effect_of_step hs hstep).2, hcreators ▸ ht.step hs hstep hcrash⟩

end

/-! ### A process alone -/

/-- The lock of a dead owner, in the way of the next acquisition. -/
structure Stale (hostname : String) (w : World) (owner : Owner) : Prop where
  lock : w.files .lock = some (.whole owner)
  dead : ¬ w.Alive owner.pid
  host : owner.host = hostname
  tombstone : w.files (.dead owner.token) = none

/-- Nothing is in the way of a process that is alone but the lock of a dead owner. -/
def Open (hostname : String) (w : World) : Prop :=
  w.files .reclaim = none ∧ (w.files .lock = none ∨ ∃ owner, Stale hostname w owner)

/-- The process is in `reclaimDeadOwner`. -/
def Call.Reclaims : Call → Prop
  | .reclaimMkdir _ => True
  | call => call.InReclaim

instance (call : Call) : Decidable call.Reclaims := by
  cases call <;> first | exact isTrue trivial | exact isFalse id

/-- What a process that is alone finds at each step of its acquisition. -/
def OnTrack (hostname : String) (w : World) : Call → Prop
  | .acquireLoop | .stageMkdir _ | .stageOpen _ | .stageWrite _ | .stageRename _ => Open hostname w
  | .unstageFile _ error | .unstageDir _ error =>
      error = .notEmpty ∧ w.files .reclaim = none ∧ ∃ owner, Stale hostname w owner
  | .observe => w.files .reclaim = none ∧ ∃ owner, Stale hostname w owner
  | .observedAlive observed | .reclaimMkdir observed => w.files .reclaim = none ∧ Stale hostname w observed
  | .reclaimRead current | .reclaimAlive current | .reclaimRename current => Stale hostname w current
  | .reclaimMoved _ => w.files .lock = none
  | .reclaimUnlink current => w.files .lock = none ∧ w.files (.dead current.token) ≠ none
  | .reclaimRmdir current => w.files .lock = none ∧ w.files (.dead current.token) = some .missing
  | .reclaimFinally outcome => outcome = .reclaimed ∧ w.files .lock = none
  | _ => False

/-- The steps that take a stale lock away. -/
def behind (w : World) : ℕ := if w.files .lock = none then 0 else 17

/-- The steps that are left. -/
def stepsLeft (w : World) : Call → ℕ
  | .stageRename _ => 1 + behind w
  | .stageWrite _ => 2 + behind w
  | .stageOpen _ => 3 + behind w
  | .stageMkdir _ => 4 + behind w
  | .acquireLoop => 5 + behind w
  | .reclaimFinally _ => 6
  | .reclaimRmdir _ => 7
  | .reclaimUnlink _ => 8
  | .reclaimMoved _ => 9
  | .reclaimRename _ => 10
  | .reclaimAlive _ => 11
  | .reclaimRead _ => 12
  | .reclaimMkdir _ => 13
  | .observedAlive _ => 14
  | .observe => 15
  | .unstageDir _ _ => 16
  | .unstageFile _ _ => 17
  | _ => 0

/-- `p` has acquired the lock. -/
def Acquired (w : World) (p : ℕ) : Prop :=
  ∃ owner, owner.pid = p ∧ (w.processes p).call = .idle ∧ (w.processes p).ended = some (.acquired owner) ∧
    w.files .lock = some (.whole owner)

section

variable {hostname : String} {w w' : World} {p : ℕ} {draw : Draw} {call : Call}

theorem behind_congr (h : w'.files .lock = w.files .lock) : behind w' = behind w := by
  unfold behind
  rw [h]

theorem Stale.congr {owner : Owner} (h : Stale hostname w owner) (hm : w.Moves p w' call)
    (hshared : Shared w.files w'.files) : Stale hostname w' owner where
  lock := hshared.lock.trans h.lock
  dead := by
    intro halive
    refine h.dead ?_
    unfold Alive at halive ⊢
    by_cases hp : owner.pid = p
    · rw [hp] at halive ⊢
      exact hm.alive ▸ halive
    · rwa [hm.others _ hp] at halive
  host := h.host
  tombstone := (hshared.dead _).trans h.tombstone

theorem Stale.ownerIsDead {owner : Owner} (h : Stale hostname w owner) :
    w.ownerIsDeadOnThisHost hostname owner = true := by
  have hdead : (w.processes owner.pid).alive = false := Bool.eq_false_of_not_eq_true h.dead
  simp [ownerIsDeadOnThisHost, h.host, hdead]

theorem Open.congr (h : Open hostname w) (hm : w.Moves p w' call) (hshared : Shared w.files w'.files) :
    Open hostname w' := by
  refine ⟨hshared.reclaim.trans h.1, ?_⟩
  rcases h.2 with hfree | ⟨owner, hstale⟩
  · exact .inl (hshared.lock.trans hfree)
  · exact .inr ⟨owner, hstale.congr hm hshared⟩

theorem Stale.files {owner : Owner} {files : Files} (h : Stale hostname w owner) (hshared : Shared w.files files) :
    Stale hostname ((w.withFiles files).goto p call) owner := h.congr (moves_goto files) hshared

theorem Open.files {files : Files} (h : Open hostname w) (hshared : Shared w.files files) :
    Open hostname ((w.withFiles files).goto p call) := h.congr (moves_goto files) hshared

/-- The next step of `p`, alone, is taken, and brings it closer to the lock. -/
def Advances (hostname : String) (w : World) (p : ℕ) (draw : Draw) : Prop :=
  ∃ w', w.callStep hostname p draw = some w' ∧ w'.Alive p ∧
    (∀ token, token ≠ draw.token → w'.issuer token = w.issuer token) ∧
    (Acquired w' p ∨ OnTrack hostname w' (w'.processes p).call ∧
      stepsLeft w' (w'.processes p).call < stepsLeft w (w.processes p).call)

theorem callStep_acquire (hcall : (w.processes p).call = call)
    (h : w.acquireStep hostname p draw call = some w') : w.callStep hostname p draw = some w' := by
  rw [World.callStep, hcall, h]
  rfl

theorem callStep_reclaim (hcall : (w.processes p).call = call)
    (hacquire : w.acquireStep hostname p draw call = none)
    (h : w.reclaimStep hostname p draw call = some w') : w.callStep hostname p draw = some w' := by
  rw [World.callStep, hcall, hacquire, h]
  rfl

/-- A step to the next call. -/
theorem Advances.goto {files : Files} {call' : Call} (halive : w.Alive p) (hcall : (w.processes p).call = call)
    (hstep : w.callStep hostname p draw = some ((w.withFiles files).goto p call'))
    (hon : OnTrack hostname ((w.withFiles files).goto p call') call')
    (hless : stepsLeft ((w.withFiles files).goto p call') call' < stepsLeft w call) :
    Advances hostname w p draw := by
  have hm : w.Moves p ((w.withFiles files).goto p call') call' := moves_goto files
  refine ⟨_, hstep, ?_, fun _ _ => rfl, .inr ?_⟩
  · unfold Alive
    rw [hm.alive]
    exact halive
  · rw [hm.call, hcall]
    exact ⟨hon, hless⟩

/-- A step of the staging, which leaves the shared paths alone. -/
theorem Advances.stage {files : Files} {call' : Call} {n : ℕ} (halive : w.Alive p)
    (hcall : (w.processes p).call = call)
    (hstep : w.acquireStep hostname p draw call = some ((w.withFiles files).goto p call'))
    (hshared : Shared w.files files) (hon : Open hostname w)
    (hopen : ∀ w : World, OnTrack hostname w call' ↔ Open hostname w)
    (hleft : ∀ w : World, stepsLeft w call = n + 1 + behind w ∧ stepsLeft w call' = n + behind w) :
    Advances hostname w p draw := by
  refine .goto halive hcall (callStep_acquire hcall hstep) ((hopen _).mpr (Open.files hon hshared)) ?_
  have hbehind : behind ((w.withFiles files).goto p call') = behind w := behind_congr hshared.lock
  rw [(hleft _).1, (hleft _).2, hbehind]
  omega

theorem onTrack_acquireStep (hs : w.Sound) (halive : w.Alive p) (hcall : (w.processes p).call = call)
    (hon : OnTrack hostname w call) (hfresh : w.issuer draw.token = none)
    (houtside : ¬ call.Reclaims) : Advances hostname w p draw := by
  have hknows := hs.knows p
  rw [hcall] at hknows
  have hsame : Shared w.files w.files := ⟨rfl, rfl, fun _ => rfl⟩
  cases call
  case acquireLoop =>
    let owner : Owner := ⟨p, draw.token, hostname, draw.processStartedAt, draw.lockCreatedAt⟩
    let w₁ : World := { w with issuer := Function.update w.issuer draw.token (some p) }
    have hstep : w.acquireStep hostname p draw .acquireLoop = some (w₁.goto p (.stageMkdir owner)) := by
      simp only [World.acquireStep, hon.1, hfresh, ne_eq, not_true_eq_false, if_false]
      rfl
    have hm : w₁.Moves p (w₁.goto p (.stageMkdir owner)) (.stageMkdir owner) := moves_goto w.files
    refine ⟨_, callStep_acquire hcall hstep, hm.alive.trans halive,
      fun token hne => Function.update_of_ne hne .., .inr ?_⟩
    rw [hm.call, hcall]
    have hopen : Open hostname w₁ :=
      ⟨hon.1, hon.2.imp id fun hstale => hstale.imp fun _ h => ⟨h.lock, h.dead, h.host, h.tombstone⟩⟩
    refine ⟨hopen.congr hm hsame, ?_⟩
    show 4 + behind w < 5 + behind w
    omega
  case stageMkdir owner =>
    have hstep : w.acquireStep hostname p draw (.stageMkdir owner) =
        some ((w.withFiles (w.files.set (.acquire owner.token) (some .missing))).goto p (.stageOpen owner)) := by
      simp only [World.acquireStep, Files.mkdir_ok.mpr ⟨hknows.2, rfl⟩]
    exact .stage halive hcall hstep (Private.shared (.inl ⟨_, rfl⟩) _ _) hon (fun _ => Iff.rfl)
      fun _ => ⟨rfl, rfl⟩
  case stageOpen owner =>
    have hstep : w.acquireStep hostname p draw (.stageOpen owner) =
        some ((w.withFiles (w.files.set (.acquire owner.token) (some .torn))).goto p (.stageWrite owner)) := by
      simp only [World.acquireStep, Files.openOwner_ok.mpr ⟨hknows.2, rfl⟩]
    exact .stage halive hcall hstep (Private.shared (.inl ⟨_, rfl⟩) _ _) hon (fun _ => Iff.rfl)
      fun _ => ⟨rfl, rfl⟩
  case stageWrite owner =>
    exact .stage halive hcall rfl (Private.shared (.inl ⟨_, rfl⟩) _ _) hon (fun _ => Iff.rfl)
      fun _ => ⟨rfl, rfl⟩
  case stageRename owner =>
    obtain ⟨⟨hpid, -⟩, hstaged⟩ := hknows
    rcases hon.2 with hfree | ⟨stale, hstale⟩
    · -- the way is free
      have hrename := Files.rename_ok.mpr ⟨_, hstaged, .inl hfree, rfl⟩
      have hstep : w.acquireStep hostname p draw (.stageRename owner) =
          some ((w.withFiles ((w.files.set .lock (some (.whole owner))).set (.acquire owner.token) none)).setProcess
            p { w.processes p with call := .idle, held := some owner, ended := some (.acquired owner) }) := by
        simp only [World.acquireStep, hrename]
      refine ⟨_, callStep_acquire hcall hstep, by simpa [Alive] using halive, fun _ _ => rfl, .inl ?_⟩
      refine ⟨owner, hpid, by simp, by simp, ?_⟩
      rw [setProcess_files, withFiles_files, Files.set_ne _ (by simp), Files.set_self]
    · have hrename : w.files.rename (.acquire owner.token) .lock = .error .notEmpty := by
        simp only [Files.rename, hstaged, hstale.lock]
      have hstep : w.acquireStep hostname p draw (.stageRename owner) =
          some ((w.withFiles w.files).goto p (.unstageFile owner .notEmpty)) := by
        simp only [World.acquireStep, hrename]
        rfl
      refine .goto halive hcall (callStep_acquire hcall hstep) ⟨rfl, hon.1, stale, hstale.files hsame⟩ ?_
      show 17 < 1 + behind w
      rw [behind, hstale.lock, if_neg (Option.some_ne_none _)]
      omega
  case unstageFile owner error =>
    obtain ⟨rfl, hreclaim, stale, hstale⟩ := hon
    cases hunlink : w.files.unlinkOwner (.acquire owner.token) with
    | ok files =>
        have hshared : Shared w.files files :=
          (Files.unlinkOwner_ok.mp hunlink).2 ▸ Private.shared (.inl ⟨_, rfl⟩) _ _
        have hstep : w.acquireStep hostname p draw (.unstageFile owner .notEmpty) =
            some ((w.withFiles files).goto p (.unstageDir owner .notEmpty)) := by
          simp only [World.acquireStep, hunlink]
        exact .goto halive hcall (callStep_acquire hcall hstep)
          ⟨rfl, hshared.reclaim.trans hreclaim, stale, hstale.files hshared⟩ (Nat.lt_succ_self 16)
    | error e =>
        have hstep : w.acquireStep hostname p draw (.unstageFile owner .notEmpty) =
            some ((w.withFiles w.files).goto p (.unstageDir owner .notEmpty)) := by
          simp only [World.acquireStep, hunlink]
          rfl
        exact .goto halive hcall (callStep_acquire hcall hstep)
          ⟨rfl, hreclaim, stale, hstale.files hsame⟩ (Nat.lt_succ_self 16)
  case unstageDir owner error =>
    obtain ⟨rfl, hreclaim, stale, hstale⟩ := hon
    cases hrmdir : w.files.rmdir (.acquire owner.token) with
    | ok files =>
        have hshared : Shared w.files files :=
          (Files.rmdir_ok.mp hrmdir).2 ▸ Private.shared (.inl ⟨_, rfl⟩) _ _
        have hstep : w.acquireStep hostname p draw (.unstageDir owner .notEmpty) =
            some ((w.withFiles files).goto p .observe) := by
          simp only [World.acquireStep, hrmdir, or_true, if_true]
        exact .goto halive hcall (callStep_acquire hcall hstep)
          ⟨hshared.reclaim.trans hreclaim, stale, hstale.files hshared⟩ (Nat.lt_succ_self 15)
    | error e =>
        have hstep : w.acquireStep hostname p draw (.unstageDir owner .notEmpty) =
            some ((w.withFiles w.files).goto p .observe) := by
          simp only [World.acquireStep, hrmdir, or_true, if_true]
          rfl
        exact .goto halive hcall (callStep_acquire hcall hstep) ⟨hreclaim, stale, hstale.files hsame⟩
          (Nat.lt_succ_self 15)
  case observe =>
    obtain ⟨hreclaim, stale, hstale⟩ := hon
    have hstep : w.acquireStep hostname p draw .observe =
        some ((w.withFiles w.files).goto p (.observedAlive stale)) := by
      simp only [World.acquireStep, Files.readOwner_ok.mpr hstale.lock]
      rfl
    exact .goto halive hcall (callStep_acquire hcall hstep) ⟨hreclaim, hstale.files hsame⟩ (Nat.lt_succ_self 14)
  case observedAlive observed =>
    have hdead := hon.2.ownerIsDead
    have hstep : w.acquireStep hostname p draw (.observedAlive observed) =
        some ((w.withFiles w.files).goto p (.reclaimMkdir observed)) := by
      simp only [World.acquireStep, hdead, if_true]
      rfl
    exact .goto halive hcall (callStep_acquire hcall hstep) ⟨hon.1, hon.2.files hsame⟩ (Nat.lt_succ_self 13)
  all_goals first | exact hon.elim | exact absurd trivial houtside

theorem onTrack_reclaimStep (hs : w.Sound) (halive : w.Alive p) (hcall : (w.processes p).call = call)
    (hon : OnTrack hostname w call) (hreclaims : call.Reclaims) : Advances hostname w p draw := by
  have hknows := hs.knows p
  rw [hcall] at hknows
  have hsame : Shared w.files w.files := ⟨rfl, rfl, fun _ => rfl⟩
  have hgoto : ∀ {files : Files} {call' : Call},
      w.reclaimStep hostname p draw call = some ((w.withFiles files).goto p call') →
      OnTrack hostname ((w.withFiles files).goto p call') call' →
      stepsLeft ((w.withFiles files).goto p call') call' < stepsLeft w call → Advances hostname w p draw :=
    fun hstep => .goto halive hcall (callStep_reclaim hcall (by cases call <;> first | rfl | exact hreclaims.elim) hstep)
  cases call
  case reclaimMkdir observed =>
    obtain ⟨hreclaim, hstale⟩ := hon
    have hstep : w.reclaimStep hostname p draw (.reclaimMkdir observed) =
        some ((w.withFiles (w.files.set .reclaim (some .missing))).goto p (.reclaimRead observed)) := by
      simp only [World.reclaimStep, Files.mkdir_ok.mpr ⟨hreclaim, rfl⟩]
    have hother : ∀ path, path ≠ .reclaim → w.files.set .reclaim (some .missing) path = w.files path :=
      fun path hne => Files.set_ne _ hne
    have hm : w.Moves p ((w.withFiles w.files).goto p (.reclaimRead observed)) (.reclaimRead observed) :=
      moves_goto w.files
    refine hgoto hstep ⟨(hother .lock (by simp)).trans hstale.lock, ?_, hstale.host,
      (hother (.dead _) (by simp)).trans hstale.tombstone⟩ (Nat.lt_succ_self 12)
    exact (hstale.congr hm hsame).dead
  case reclaimRead observed =>
    have hstep : w.reclaimStep hostname p draw (.reclaimRead observed) =
        some ((w.withFiles w.files).goto p (.reclaimAlive observed)) := by
      simp only [World.reclaimStep, Files.readOwner_ok.mpr hon.lock, if_true]
      rfl
    exact hgoto hstep (Stale.files hon hsame) (Nat.lt_succ_self 11)
  case reclaimAlive current =>
    have hstep : w.reclaimStep hostname p draw (.reclaimAlive current) =
        some ((w.withFiles w.files).goto p (.reclaimRename current)) := by
      simp only [World.reclaimStep, hon.ownerIsDead, if_true]
      rfl
    exact hgoto hstep (Stale.files hon hsame) (Nat.lt_succ_self 10)
  case reclaimRename current =>
    have hrename := Files.rename_ok.mpr ⟨_, hon.lock, .inl hon.tombstone, rfl⟩
    have hstep : w.reclaimStep hostname p draw (.reclaimRename current) =
        some ((w.withFiles ((w.files.set (.dead current.token) (some (.whole current))).set .lock none)).goto p
          (.reclaimMoved current)) := by
      simp only [World.reclaimStep, hrename]
    have hgone : ((w.files.set (.dead current.token) (some (.whole current))).set .lock none) .lock = none :=
      Files.set_self none
    exact hgoto hstep hgone (Nat.lt_succ_self 9)
  case reclaimMoved current =>
    have hstep : w.reclaimStep hostname p draw (.reclaimMoved current) =
        some ((w.withFiles w.files).goto p (.reclaimUnlink current)) := by
      simp only [World.reclaimStep, Files.readOwner_ok.mpr hknows, if_true]
      rfl
    have htombstone : w.files (.dead current.token) ≠ none := by
      rw [hknows]
      exact Option.some_ne_none _
    exact hgoto hstep ⟨hon, htombstone⟩ (Nat.lt_succ_self 8)
  case reclaimUnlink current =>
    obtain ⟨hlock, htombstone⟩ := hon
    have hstep : w.reclaimStep hostname p draw (.reclaimUnlink current) =
        some ((w.withFiles (w.files.set (.dead current.token) (some .missing))).goto p (.reclaimRmdir current)) := by
      simp only [World.reclaimStep, Files.unlinkOwner_ok.mpr ⟨htombstone, rfl⟩]
    have hother : w.files.set (.dead current.token) (some .missing) .lock = w.files .lock :=
      Files.set_ne _ (by simp)
    exact hgoto hstep ⟨hother.trans hlock, Files.set_self _⟩ (Nat.lt_succ_self 7)
  case reclaimRmdir current =>
    obtain ⟨hlock, htombstone⟩ := hon
    have hstep : w.reclaimStep hostname p draw (.reclaimRmdir current) =
        some ((w.withFiles (w.files.set (.dead current.token) none)).goto p (.reclaimFinally .reclaimed)) := by
      simp only [World.reclaimStep, Files.rmdir_ok.mpr ⟨htombstone, rfl⟩]
    have hother : w.files.set (.dead current.token) none .lock = w.files .lock := Files.set_ne _ (by simp)
    exact hgoto hstep ⟨rfl, hother.trans hlock⟩ (Nat.lt_succ_self 6)
  case reclaimFinally outcome =>
    obtain ⟨rfl, hlock⟩ := hon
    have hmarker : w.files .reclaim = some .missing := hs.reclaim p (hcall ▸ trivial)
    have hstep : w.reclaimStep hostname p draw (.reclaimFinally .reclaimed) =
        some ((w.withFiles (w.files.set .reclaim none)).goto p .acquireLoop) := by
      simp only [World.reclaimStep, Files.rmdir_ok.mpr ⟨hmarker, rfl⟩]
    have hother : w.files.set .reclaim none .lock = w.files .lock := Files.set_ne _ (by simp)
    have hgone : w.files.set .reclaim none .reclaim = none := Files.set_self none
    refine hgoto hstep ⟨hgone, .inl (hother.trans hlock)⟩ ?_
    show 5 + behind _ < 6
    rw [behind, if_pos]
    · exact Nat.lt_succ_self 5
    · exact hother.trans hlock
  all_goals first | exact hon.elim | exact hreclaims.elim

theorem onTrack_step (hs : w.Sound) (halive : w.Alive p) (hon : OnTrack hostname w (w.processes p).call)
    (hfresh : w.issuer draw.token = none) : Advances hostname w p draw := by
  by_cases hreclaims : (w.processes p).call.Reclaims
  · exact onTrack_reclaimStep hs halive rfl hon hreclaims
  · exact onTrack_acquireStep hs halive rfl hon hfresh hreclaims

/-- The first `n` draws, for a process that takes all the steps. -/
def alone (p : ℕ) (draws : ℕ → Draw) (n : ℕ) : List LockAction := (List.range n).map fun i => .run p (draws i)

theorem alone_succ (draws : ℕ → Draw) (n : ℕ) :
    alone p draws (n + 1) = .run p (draws 0) :: alone p (fun i => draws (i + 1)) n := by
  unfold alone
  rw [List.range_succ_eq_map, List.map_cons, List.map_map]
  rfl

/-- From every step of its acquisition, a process that is alone gets the lock. -/
theorem onTrack_run (hs : w.Sound) (halive : w.Alive p) (hon : OnTrack hostname w (w.processes p).call)
    {draws : ℕ → Draw} (hinj : Function.Injective fun i => (draws i).token)
    (hfresh : ∀ i, w.issuer (draws i).token = none) :
    ∃ n w', (lockSystem hostname).exec w (alone p draws n) = some w' ∧ Acquired w' p := by
  induction hn : stepsLeft w (w.processes p).call using Nat.strong_induction_on generalizing w draws with
  | _ m ih =>
      subst hn
      obtain ⟨w₁, hcall, halive', hissuer, hnext⟩ := onTrack_step hs halive hon (hfresh 0)
      have hstep : (lockSystem hostname).step w (.run p (draws 0)) = some w₁ := (if_pos halive).trans hcall
      have hexec : ∀ n, (lockSystem hostname).exec w (alone p draws (n + 1)) =
          (lockSystem hostname).exec w₁ (alone p (fun i => draws (i + 1)) n) := by
        intro n
        rw [alone_succ, System.exec, hstep, Option.bind_some]
      rcases hnext with hacquired | ⟨hon', hless⟩
      · exact ⟨1, w₁, hexec 0, hacquired⟩
      · have hinj' : Function.Injective fun i => (draws (i + 1)).token :=
          fun i j h => Nat.succ.inj (hinj h)
        have hfresh' : ∀ i, w₁.issuer (draws (i + 1)).token = none := fun i => by
          rw [hissuer _ (fun h => Nat.succ_ne_zero i (hinj h)), hfresh]
        obtain ⟨n, w', hrun, hacquired⟩ :=
          ih _ hless (effect_of_step hs hstep).2 halive' hon' hinj' hfresh' rfl
        exact ⟨n + 1, w', (hexec n).trans hrun, hacquired⟩

/-! ### Recovery -/

/-- If everybody who ever created one of the paths is dead, a process that runs `acquireEnvelopeLock` alone
obtains the lock, whatever it draws. -/
def Recovers (hostname : String) (w : World) (creators : Set ℕ) : Prop :=
  (∀ q ∈ creators, ¬ w.Alive q) → ∀ (p : ℕ) (draws : ℕ → Draw), w.Alive p → (w.processes p).call = .idle →
    (Function.Injective fun i => (draws i).token) → (∀ i, w.issuer (draws i).token = none) →
    ∃ n w', (lockSystem hostname).exec w (.acquire p :: alone p draws n) = some w' ∧ Acquired w' p

theorem open_of_traced {creators : Set ℕ} (hs : w.Sound) (ht : Traced hostname w creators)
    (hdead : ∀ q ∈ creators, ¬ w.Alive q) : Open hostname w := by
  constructor
  · by_contra hmarker
    obtain ⟨q, hq⟩ := ht.marker hmarker
    have hidle := hs.crashed q (hdead q (ht.inside q hq))
    unfold Inside at hq
    rw [hidle] at hq
    exact hq
  · cases hlock : w.files .lock with
    | none => exact .inl rfl
    | some dir =>
        obtain ⟨owner, rfl, -, -⟩ := hs.lock dir hlock
        obtain ⟨hhost, htombstone, hcreator⟩ := ht.lock owner hlock
        exact .inr ⟨owner, hlock, hdead _ hcreator, hhost, htombstone⟩

/-- The lock recovers in every run in which nobody crashes inside a reclaim. -/
theorem lock_recovers {creators : Set ℕ}
    (h : (traced hostname).Reachable (fun s action => s.1.NoCrashInside action) (w, creators)) :
    Recovers hostname w creators := by
  obtain ⟨hs, ht⟩ := traced_of_reachable h
  intro hdead p draws halive hidle hinj hfresh
  have hopen := open_of_traced hs ht hdead
  have hm : w.Moves p (w.goto p .acquireLoop) .acquireLoop := moves_goto w.files
  have hstep : (lockSystem hostname).step w (.acquire p) = some (w.goto p .acquireLoop) :=
    (if_pos halive).trans (if_pos hidle)
  have hon : OnTrack hostname (w.goto p .acquireLoop) ((w.goto p .acquireLoop).processes p).call := by
    rw [hm.call]
    exact hopen.congr hm ⟨rfl, rfl, fun _ => rfl⟩
  obtain ⟨n, w', hrun, hacquired⟩ :=
    onTrack_run (effect_of_step hs hstep).2 (hm.alive.trans halive) hon hinj hfresh
  refine ⟨n, w', ?_, hacquired⟩
  rw [System.exec, hstep, Option.bind_some]
  exact hrun

/-- Every creator has taken a step. -/
theorem creators_subset {C : World → LockAction → Prop} {s s' : World × Set ℕ} {actions : List LockAction}
    (h : (traced hostname).Run (fun s action => C s.1 action) s actions s') {q : ℕ} (hq : q ∈ s'.2) :
    q ∈ s.2 ∨ q ∈ actions.map LockAction.pid := by
  induction h with
  | refl s => exact .inl hq
  | @step s s₁ s₂ action actions _ hstep _ ih =>
      rw [List.map_cons]
      rcases ih hq with hold | hlater
      · rw [(System.withHistory_step.mp hstep).2] at hold
        rcases hold with hold | ⟨rfl, -⟩
        · exact .inl hold
        · exact .inr List.mem_cons_self
      · exact .inr (List.mem_cons_of_mem _ hlater)

/-- The reclaim directory is there, and `p` has not yet passed it. -/
def Stuck (w : World) (p : ℕ) : Prop :=
  w.files .reclaim ≠ none ∧ ((w.processes p).call = .idle ∨ (w.processes p).call = .acquireLoop) ∧
    ∀ owner, (w.processes p).ended ≠ some (.acquired owner)

theorem Stuck.step (h : Stuck w p) (hstep : (lockSystem hostname).step w (.run p draw) = some w') :
    Stuck w' p := by
  obtain ⟨hmarker, hcall, hended⟩ := h
  simp only [lockSystem] at hstep
  split at hstep
  · rcases hcall with hidle | hloop
    · simp [World.callStep, hidle, World.acquireStep, World.reclaimStep, World.releaseStep] at hstep
    · have hretry : w.acquireStep hostname p draw .acquireLoop = some (w.retry p draw) := if_pos hmarker
      obtain rfl := Option.some.inj ((callStep_acquire hloop hretry).symm.trans hstep)
      refine ⟨by rwa [retry_files], ?_⟩
      unfold World.retry
      split
      · refine ⟨.inl ?_, fun owner => ?_⟩ <;> simp [World.finish]
      · refine ⟨.inr ?_, fun owner => ?_⟩ <;> simp [World.goto, hended]
  · cases hstep

/-- A process alone does not get past the reclaim directory. -/
theorem Stuck.run {draws : ℕ → Draw} {n : ℕ} (h : Stuck w p)
    (hexec : (lockSystem hostname).exec w (alone p draws n) = some w') : Stuck w' p := by
  induction n generalizing w draws with
  | zero =>
      obtain rfl := Option.some.inj hexec
      exact h
  | succ n ih =>
      rw [alone_succ, System.exec] at hexec
      obtain ⟨w₁, hstep, hrest⟩ := Option.bind_eq_some_iff.mp hexec
      exact ih (h.step hstep) hrest

end

/-! ### Two runs -/

namespace Sample

/-- The second process of `reclaimingRun` crashes as well, with the lock. -/
def crashingRun : List LockAction := reclaimingRun ++ [.crash 2]

/-- Process 1 acquires the lock and crashes; process 2 crashes when it has made the reclaim directory. -/
def markedRun : List LockAction :=
  .acquire 1 :: List.replicate 5 (.run 1 (draws "a")) ++ [.crash 1, .acquire 2] ++
    List.replicate 10 (.run 2 (draws "b")) ++ [.crash 2]

end Sample

theorem lock_recovers_sample : ∃ w creators,
    (traced "host").Reachable (fun s action => s.1.NoCrashInside action) (w, creators) ∧
      w.files .lock ≠ none ∧ (∀ q ∈ creators, ¬ w.Alive q) ∧ Recovers "host" w creators := by
  have hrun : ((lockSystem "host").execIf World.NoCrashInside ⟨fun _ => none, fun _ => {}, fun _ => none⟩
      Sample.crashingRun).map (fun w => ((w.processes 1).alive, (w.processes 2).alive, w.files .lock)) =
        some (false, false, some (.whole Sample.secondOwner)) := by
    decide +kernel
  obtain ⟨w, hexec, hstate⟩ := Option.map_eq_some_iff.mp hrun
  simp only [Prod.mk.injEq] at hstate
  obtain ⟨hfirst, hsecond, hlock⟩ := hstate
  have hinit : (lockSystem "host").init ⟨fun _ => none, fun _ => {}, fun _ => none⟩ := rfl
  obtain ⟨creators, htraced⟩ : ∃ creators, (traced "host").Run (fun s action => s.1.NoCrashInside action)
      (_, ∅) Sample.crashingRun (w, creators) := (System.run_of_execIf hexec).history_exists ∅
  have hreach : (traced "host").Reachable (fun s action => s.1.NoCrashInside action) (w, creators) :=
    ⟨_, _, ⟨hinit, rfl⟩, htraced⟩
  have hpids : ∀ q ∈ Sample.crashingRun.map LockAction.pid, q = 1 ∨ q = 2 := by decide +kernel
  refine ⟨w, creators, hreach, hlock ▸ Option.some_ne_none _, fun q hq => ?_, lock_recovers hreach⟩
  unfold World.Alive
  rcases (creators_subset htraced hq).elim (fun h => h.elim) (hpids q) with rfl | rfl
  · rw [hfirst]
    exact Bool.false_ne_true
  · rw [hsecond]
    exact Bool.false_ne_true

/-- A crash inside a reclaim: all who created a path are dead, and a fresh process never acquires the lock. -/
theorem reclaim_marker_stays : ∃ w creators, (traced "host").Reachable (fun _ _ => True) (w, creators) ∧
    (∀ q ∈ creators, ¬ w.Alive q) ∧ (w.processes 3).alive = true ∧ (w.processes 3).call = .idle ∧
    ∀ draws n w', (lockSystem "host").exec w (.acquire 3 :: alone 3 draws n) = some w' → ¬ Acquired w' 3 := by
  have hrun : ((lockSystem "host").exec ⟨fun _ => none, fun _ => {}, fun _ => none⟩ Sample.markedRun).map
      (fun w => ([(w.processes 1).alive, (w.processes 2).alive, (w.processes 3).alive], (w.processes 3).call,
        (w.processes 3).ended, w.files .reclaim)) =
        some ([false, false, true], .idle, none, some .missing) := by
    decide +kernel
  obtain ⟨w, hexec, hstate⟩ := Option.map_eq_some_iff.mp hrun
  simp only [Prod.mk.injEq, List.cons.injEq, and_true] at hstate
  obtain ⟨⟨hfirst, hsecond, hthird⟩, hidle, hended, hmarker⟩ := hstate
  have hinit : (lockSystem "host").init ⟨fun _ => none, fun _ => {}, fun _ => none⟩ := rfl
  obtain ⟨creators, htraced⟩ : ∃ creators, (traced "host").Run (fun _ _ => True) (_, ∅) Sample.markedRun
      (w, creators) := (System.run_of_exec hexec).history_exists ∅
  have hpids : ∀ q ∈ Sample.markedRun.map LockAction.pid, q = 1 ∨ q = 2 := by decide +kernel
  refine ⟨w, creators, ⟨_, _, ⟨hinit, rfl⟩, htraced⟩, fun q hq => ?_, hthird, hidle, fun draws n w' hw' => ?_⟩
  · unfold World.Alive
    rcases (creators_subset (C := fun _ _ => True) htraced hq).elim (fun h => h.elim) (hpids q) with rfl | rfl
    · rw [hfirst]
      exact Bool.false_ne_true
    · rw [hsecond]
      exact Bool.false_ne_true
  · have hstep : (lockSystem "host").step w (.acquire 3) = some (w.goto 3 .acquireLoop) :=
      (if_pos hthird).trans (if_pos hidle)
    rw [System.exec, hstep, Option.bind_some] at hw'
    have hstuck : Stuck (w.goto 3 .acquireLoop) 3 := by
      refine ⟨hmarker ▸ Option.some_ne_none _, .inr (by simp [World.goto]), fun owner => ?_⟩
      simp [World.goto, hended]
    rintro ⟨owner, -, -, hacquired, -⟩
    exact (hstuck.run hw').2.2 owner hacquired

end P42Prizes.EnvelopeLock
