import P42Prizes.RunnerHealth
import P42Prizes.Systems

/-! # The chain of health artifacts

The record of the last accepted artifact stands for the artifact itself: `Succeeds` is what both the check
against the record and the check against the artifact ask of a successor.  The first asks one thing more, that
the recovery authorization of the successor was never accepted before (`Unrecorded`), and a successor that
repeats an acknowledgement with an authorization repeats the authorization.

* `Follows`: how an accepted artifact follows the one before it.
* `Kept`: what a run keeps, about the file and the artifacts accepted so far.
* `healthChain_kept`: the laws of the chain, in every run. -/

namespace P42Prizes.RunnerHealth

open Agent Reverting Transition

variable {env : Platform} {expected : ExpectedHealth} {now : ℤ} {p h : HealthArtifact}
  {w : HealthHighWater} {f f' : HealthFile} {accepted : List HealthArtifact}

/-! ### What a successor must satisfy -/

/-- The artifact stands alone: its form, its hash and its signature. -/
structure Genuine (env : Platform) (h : HealthArtifact) : Prop where
  schema : Schema.runnerHealthV2 env h = true
  signedHash : checkSignedHash env h = .ok ()

/-- The bindings that a caller expects hold of the artifact, apart from its boot. -/
def Bound (env : Platform) (expected : ExpectedHealth) (h : HealthArtifact) : Prop :=
  checkBindings env { expected with bootId := none } h = .ok ()

/-- The recovery authorization of the artifact, if it has one, is not in the record. -/
def Unrecorded (w : HealthHighWater) (h : HealthArtifact) : Prop :=
  ∀ recoveryHash ∈ h.counterAcknowledgement.recoveryHash,
    recoveryHash ∉ w.consumedRecoveryAuthorizationHashes

/-- The boot of `h` is `bootId`, or comes after it. -/
def BootFollows (bootId : String) (h : HealthArtifact) : Prop :=
  if h.producer.bootId ≠ bootId then
    ∃ transition ∈ h.bootTransition, transition.previousBootId = bootId ∧
      transition.newBootId = h.producer.bootId ∧
      transition.transitionBlockNumber = h.chain.blockNumber ∧
      transition.transitionBlockHash = h.chain.blockHash
  else h.bootTransition = none

/-- `h` is a successor of the artifact of the record `w`. -/
structure Succeeds (env : Platform) (expected : ExpectedHealth) (w : HealthHighWater)
    (h : HealthArtifact) : Prop where
  sequence : h.sequence = w.sequence + 1
  prior : h.priorArtifactHash = some w.artifactHash
  counters : ¬ h.counters.Below w.counters
  acknowledgement : validateCounterAcknowledgement env (some (w.counters, w.counterAcknowledgement)) h
    expected = .ok ()
  host : h.producer.hostId = w.hostId
  queue : h.producer.queueId = w.queueId
  boot : BootFollows w.bootId h

theorem checkBoot_eq_ok {bootId invalid spurious : String} :
    checkBoot bootId h invalid spurious = .ok () ↔ BootFollows bootId h := by
  unfold checkBoot BootFollows
  split
  · rw [revertIf_eq_ok]
    simp only [ne_eq, not_forall, not_or, not_not, exists_prop]
  · rw [revertIf_eq_ok, ne_eq, not_not]

theorem authenticity_eq_ok : validateRunnerHealthAuthenticity env expected h = .ok () ↔
    Genuine env h ∧ checkBindings env expected h = .ok () := by
  simp only [validateRunnerHealthAuthenticity, bind_eq_ok, revertIf_eq_ok, Unique.exists_iff,
    PUnit.default_eq_unit, Bool.not_eq_false]
  constructor
  · rintro ⟨hschema, hbindings, hsigned⟩
    exact ⟨⟨hschema, hsigned⟩, hbindings⟩
  · rintro ⟨⟨hschema, hsigned⟩, hbindings⟩
    exact ⟨hschema, hbindings, hsigned⟩

theorem bindings_withBoot : checkBindings env { expected with bootId := some h.producer.bootId } h = .ok () ↔
    Bound env expected h := by
  simp only [Bound, checkBindings, checkBinding, bind_eq_ok, revertIf_eq_ok, pure_eq_ok, Unique.exists_iff,
    PUnit.default_eq_unit, ne_eq, not_true_eq_false, not_false_eq_true, true_and]

/-- A successor names the boot of the artifact it follows, in its transition or as its own. -/
theorem BootFollows.previousBoot {bootId : String} (hb : BootFollows bootId h) :
    (h.bootTransition.map BootTransition.previousBootId).getD h.producer.bootId = bootId := by
  unfold BootFollows at hb
  split at hb <;> rename_i hboot
  · obtain ⟨transition, ht, hprevious, -⟩ := hb
    rw [Option.mem_def.mp ht]
    exact hprevious
  · rw [hb]
    exact not_not.mp hboot

theorem validateHighWater_eq_ok : validateHighWater env w none h expected = .ok () ↔
    Unrecorded w h ∧ Succeeds env expected w h := by
  have hbinding : ¬ ∃ b ∈ (none : Option ReservationBinding),
      h.sequence ≠ b.sequence ∨ h.artifactHash ≠ b.artifactHash := by simp
  simp only [validateHighWater, bind_eq_ok, revertIf_eq_ok, Unique.exists_iff]
  constructor
  · rintro ⟨-, hrest⟩
    split at hrest
    · exact absurd (revertIf_eq_ok.mp hrest) (by simp)
    · split at hrest <;> rename_i hnext
      · simp only [bind_eq_ok, revertIf_eq_ok, Unique.exists_iff, PUnit.default_eq_unit] at hrest
        obtain ⟨hfresh, hcounters, hack, hidentity, hboot⟩ := hrest
        rw [not_or, ne_eq, not_not, ne_eq, not_not] at hidentity
        refine ⟨fun x hx hmem => hfresh ⟨x, hx, hmem⟩, ?_⟩
        exact ⟨hnext.1, hnext.2, hcounters, hack, hidentity.1, hidentity.2, checkBoot_eq_ok.mp hboot⟩
      · cases hrest
  · rintro ⟨hfresh, hs⟩
    have hnot : ¬ (h.sequence = w.sequence ∧ h.artifactHash = w.artifactHash) := by
      rintro ⟨hsame, -⟩
      have := hs.sequence
      omega
    refine ⟨hbinding, ?_⟩
    rw [if_neg hnot, if_pos ⟨hs.sequence, hs.prior⟩]
    simp only [bind_eq_ok, revertIf_eq_ok, Unique.exists_iff, PUnit.default_eq_unit]
    refine ⟨fun h => h.elim fun x hx => hfresh x hx.1 hx.2, hs.counters, hs.acknowledgement, ?_,
      checkBoot_eq_ok.mpr hs.boot⟩
    rw [not_or, ne_eq, not_not, ne_eq, not_not]
    exact ⟨hs.host, hs.queue⟩

theorem predecessor_eq_ok {previous : Option HealthHighWater} :
    validateRunnerHealthPredecessor env p h expected = .ok () ↔
      Genuine env p ∧ Bound env expected p ∧ Succeeds env expected (healthHighWater p previous) h := by
  simp only [validateRunnerHealthPredecessor, bind_eq_ok, revertIf_eq_ok, Unique.exists_iff,
    PUnit.default_eq_unit, authenticity_eq_ok, checkBoot_eq_ok, not_or, ne_eq, not_not]
  constructor
  · rintro ⟨⟨hgenuine, hbindings⟩, ⟨hsequence, hprior⟩, hcounters, hack, ⟨hhost, hqueue⟩, hboot⟩
    rw [hboot.previousBoot] at hbindings
    exact ⟨hgenuine, bindings_withBoot.mp hbindings,
      ⟨hsequence, hprior, hcounters, hack, hhost, hqueue, hboot⟩⟩
  · rintro ⟨hgenuine, hbound, hs⟩
    have hboot : BootFollows p.producer.bootId h := hs.boot
    rw [hboot.previousBoot]
    exact ⟨⟨hgenuine, bindings_withBoot.mpr hbound⟩, ⟨hs.sequence, hs.prior⟩, hs.counters,
      hs.acknowledgement, ⟨hs.host, hs.queue⟩, hboot⟩

/-! ### Admission -/

theorem isOk_iff {ε α : Type} {x : Except ε α} : x.isOk = true ↔ ∃ r, x = .ok r := by
  cases x with
  | error e => exact iff_of_false (fun h => by cases h) (fun ⟨_, h⟩ => by cases h)
  | ok r => exact iff_of_true rfl ⟨r, rfl⟩

theorem allowed_iff {options : AdmissionOptions} : Allowed env options h = true ↔
    validateRoot env options h = .ok () ∧ validateChain env options h = .ok () ∧
      validateQueue env h.chain.blockTime h.queue = .ok () ∧ validateIncidents env options h = .ok () := by
  simp only [Allowed, isOk_iff, runnerHealthAdmission, bind_eq_ok, Unique.exists_iff, PUnit.default_eq_unit]
  constructor
  · rintro ⟨r, hroot, hchain, hqueue, hincidents, -⟩
    exact ⟨hroot, hchain, hqueue, hincidents⟩
  · rintro ⟨hroot, hchain, hqueue, hincidents⟩
    split
    · exact ⟨_, hroot, hchain, hqueue, hincidents, rfl⟩
    · exact ⟨_, hroot, hchain, hqueue, hincidents, rfl⟩

theorem validateChain_stored : validateChain env { now, expected, highWater := some w } h = .ok () ↔
    Unrecorded w h ∧ Succeeds env expected w h := by
  rw [← validateHighWater_eq_ok]
  rfl

theorem validateChain_direct (previous : Option HealthHighWater) :
    validateChain env { now, expected, prior := some p } h = .ok () ↔
      Genuine env p ∧ Bound env expected p ∧ Succeeds env expected (healthHighWater p previous) h := by
  rw [← predecessor_eq_ok]
  simp only [validateChain, bind_eq_ok, revertIf_eq_ok, Unique.exists_iff, PUnit.default_eq_unit,
    reduceCtorEq, false_and, not_false_eq_true, and_true]

/-- Admission against the record of an artifact and admission against the artifact itself. -/
theorem allowed_stored_iff (previous : Option HealthHighWater) (hp : Genuine env p) :
    Allowed env { now, expected, highWater := some (healthHighWater p previous) } h = true ∧
        Bound env expected p ↔
      Allowed env { now, expected, prior := some p } h = true ∧
        Unrecorded (healthHighWater p previous) h := by
  -- with one of the two to check against, the rest of the admission is the same
  have hroot : validateRoot env { now, expected, highWater := some (healthHighWater p previous) } h =
      validateRoot env { now, expected, prior := some p } h := by
    simp only [validateRoot, reduceCtorEq, false_and, and_false]
  have hincidents :
      validateIncidents env { now, expected, highWater := some (healthHighWater p previous) } h =
        validateIncidents env { now, expected, prior := some p } h := by
    simp only [validateIncidents, reduceCtorEq, false_and, and_false]
  rw [allowed_iff, allowed_iff, validateChain_stored, validateChain_direct previous, hroot,
    hincidents]
  constructor
  · rintro ⟨⟨hr, ⟨hfresh, hs⟩, hrest⟩, hbound⟩
    exact ⟨⟨hr, ⟨hp, hbound, hs⟩, hrest⟩, hfresh⟩
  · rintro ⟨⟨hr, ⟨-, hbound, hs⟩, hrest⟩, hfresh⟩
    exact ⟨⟨hr, ⟨hfresh, hs⟩, hrest⟩, hbound⟩

/-! ### The artifacts that a run accepts -/

/-- How an accepted artifact `h` follows the one before it. -/
structure Follows (h p : HealthArtifact) : Prop where
  sequence : h.sequence = p.sequence + 1
  prior : h.priorArtifactHash = some p.artifactHash
  oomKills : p.counters.oomKills ≤ h.counters.oomKills
  workerRestarts : p.counters.workerRestarts ≤ h.counters.workerRestarts
  queueCorruptionEvents : p.counters.queueCorruptionEvents ≤ h.counters.queueCorruptionEvents
  generation : h.counterAcknowledgement = p.counterAcknowledgement ∨
    h.counterAcknowledgement.generation = p.counterAcknowledgement.generation + 1 ∧
      h.counterAcknowledgement.recoveryHash ≠ none

theorem recovery_of_authorized {previous : Option Counters}
    (ha : validateCounterRecoveryAuthorization env previous h expected = .ok ()) :
    h.counterAcknowledgement.recoveryHash ≠ none := by
  intro hnone
  unfold validateCounterRecoveryAuthorization at ha
  rw [Option.map_eq_none_iff.mp hnone] at ha
  cases ha

theorem Succeeds.follows {previous : Option HealthHighWater}
    (hs : Succeeds env expected (healthHighWater p previous) h) : Follows h p := by
  have hcounters : ¬ h.counters.Below p.counters := hs.counters
  unfold Counters.Below at hcounters
  push Not at hcounters
  refine ⟨hs.sequence, hs.prior, hcounters.1, hcounters.2.1, hcounters.2.2, ?_⟩
  have hack := hs.acknowledgement
  simp only [validateCounterAcknowledgement, bind_eq_ok, Unique.exists_iff] at hack
  obtain ⟨-, hack⟩ := hack
  split at hack
  · exact .inl (not_not.mp (revertIf_eq_ok.mp hack))
  · split at hack <;> rename_i hnext
    · simp only [bind_eq_ok, Unique.exists_iff] at hack
      exact .inr ⟨hnext, recovery_of_authorized hack.2.2⟩
    · cases hack

/-- The accepted artifacts that changed the generation. -/
def generationChanges : List HealthArtifact → List HealthArtifact
  | h :: p :: rest =>
      if h.counterAcknowledgement.generation = p.counterAcknowledgement.generation then
        generationChanges (p :: rest)
      else h :: generationChanges (p :: rest)
  | _ => []

theorem generationChanges_sublist : ∀ accepted, (generationChanges accepted).Sublist accepted
  | [] => .slnil
  | [_] => List.nil_sublist _
  | h :: p :: rest => by
      rw [generationChanges]
      split
      · exact (generationChanges_sublist (p :: rest)).cons h
      · exact (generationChanges_sublist (p :: rest)).cons_cons h

theorem generationChanges_authorized : ∀ accepted : List HealthArtifact, accepted.IsChain Follows →
    ∀ h ∈ generationChanges accepted, h.counterAcknowledgement.recoveryHash ≠ none
  | [], _, _, hmem => nomatch hmem
  | [_], _, _, hmem => nomatch hmem
  | h :: p :: rest, hchain, q, hmem => by
      obtain ⟨hfollows, hrest⟩ := List.isChain_cons_cons.mp hchain
      rw [generationChanges] at hmem
      split at hmem <;> rename_i hsame
      · exact generationChanges_authorized (p :: rest) hrest q hmem
      · rcases List.mem_cons.mp hmem with rfl | hmem
        · rcases hfollows.generation with heq | ⟨-, hauthorized⟩
          · exact absurd (congrArg CounterAcknowledgement.generation heq) hsame
          · exact hauthorized
        · exact generationChanges_authorized (p :: rest) hrest q hmem

/-- What a run keeps. -/
structure Kept (env : Platform) (f : HealthFile) (accepted : List HealthArtifact) : Prop where
  stored : accepted = [] ∧ f.highWater = none ∨
    ∃ p rest previous, accepted = p :: rest ∧ f.highWater = some (healthHighWater p previous)
  chain : accepted.IsChain Follows
  genuine : ∀ h ∈ accepted, Genuine env h
  /-- Every authorization that was accepted is recorded. -/
  recorded : ∀ w ∈ f.highWater, ∀ h ∈ accepted, ∀ recoveryHash ∈ h.counterAcknowledgement.recoveryHash,
    recoveryHash ∈ w.consumedRecoveryAuthorizationHashes
  /-- No authorization was accepted twice. -/
  once : accepted.Pairwise fun h p => ∀ recoveryHash ∈ h.counterAcknowledgement.recoveryHash,
    recoveryHash ∉ p.counterAcknowledgement.recoveryHash

theorem mem_consumed {recoveryHash : String} {previous : Option HealthHighWater} :
    recoveryHash ∈ (healthHighWater h previous).consumedRecoveryAuthorizationHashes ↔
      recoveryHash ∈ h.counterAcknowledgement.recoveryHash ∨
        ∃ w ∈ previous, recoveryHash ∈ w.consumedRecoveryAuthorizationHashes := by
  simp only [healthHighWater, Option.mem_def]
  cases h.counterAcknowledgement.recoveryHash with
  | none => cases previous <;> simp
  | some own =>
      cases previous with
      | none => simp [eq_comm]
      | some w =>
          by_cases hmem : own ∈ w.consumedRecoveryAuthorizationHashes
          · simp only [Option.map_some, Option.getD_some, hmem, if_true, Option.some.injEq,
              exists_eq_left']
            exact ⟨.inr, fun hor => hor.elim (fun heq => heq ▸ hmem) id⟩
          · simp [hmem, or_comm, eq_comm]

/-- An artifact that was admitted is accepted. -/
theorem Kept.accept {prior : Option HealthArtifact} {envelope : Envelope} (hk : Kept env f accepted)
    (ha : Allowed env { now, expected, prior, highWater := f.highWater } h = true) :
    Kept env ⟨envelope, some (healthHighWater h f.highWater)⟩ (h :: accepted) := by
  obtain ⟨hroot, hchain, -, -⟩ := allowed_iff.mp ha
  have hgenuine : Genuine env h := by
    simp only [validateRoot, bind_eq_ok, Unique.exists_iff, PUnit.default_eq_unit] at hroot
    exact (authenticity_eq_ok.mp hroot.1).1
  have hnext : ∀ p rest previous, accepted = p :: rest → f.highWater = some (healthHighWater p previous) →
      Unrecorded (healthHighWater p previous) h ∧ Follows h p := by
    intro p rest previous _ hw
    have hstored : validateHighWater env (healthHighWater p previous) none h expected = .ok () := by
      cases prior with
      | none => simpa only [validateChain, hw] using hchain
      | some prior =>
          simp only [validateChain, hw, bind_eq_ok] at hchain
          obtain ⟨-, -, hstored⟩ := hchain
          exact hstored
    obtain ⟨hfresh, hs⟩ := validateHighWater_eq_ok.mp hstored
    exact ⟨hfresh, hs.follows⟩
  have hunrecorded : ∀ q ∈ accepted, ∀ recoveryHash ∈ h.counterAcknowledgement.recoveryHash,
      recoveryHash ∉ q.counterAcknowledgement.recoveryHash := by
    intro q hq recoveryHash hown hother
    rcases hk.stored with ⟨rfl, -⟩ | ⟨p, rest, previous, hacc, hw⟩
    · cases hq
    · exact (hnext p rest previous hacc hw).1 recoveryHash hown
        (hk.recorded _ hw q hq recoveryHash hother)
  refine ⟨.inr ⟨h, accepted, f.highWater, rfl, rfl⟩, ?_, ?_, ?_, List.pairwise_cons.mpr ⟨hunrecorded, hk.once⟩⟩
  · rcases hk.stored with ⟨rfl, -⟩ | ⟨p, rest, previous, rfl, hw⟩
    · exact List.isChain_singleton h
    · exact List.isChain_cons_cons.mpr ⟨(hnext p rest previous rfl hw).2, hk.chain⟩
  · exact List.forall_mem_cons.mpr ⟨hgenuine, hk.genuine⟩
  · rintro w hw q hq recoveryHash hmem
    obtain rfl := Option.some.inj hw
    rw [mem_consumed]
    rcases List.mem_cons.mp hq with rfl | hq
    · exact .inl hmem
    · rcases hk.stored with ⟨rfl, -⟩ | ⟨p, rest, previous, -, hw⟩
      · cases hq
      · exact .inr ⟨_, hw, hk.recorded _ hw q hq recoveryHash hmem⟩

theorem reserve_admitted {day : ℕ} {input : ReserveInput} {s s' : Envelope} {report : Report}
    (hr : s.reserveChallengeSpend day input = .ok (report, s')) : input.admitted = true := by
  simp only [Envelope.reserveChallengeSpend, bind_eq_ok] at hr
  obtain ⟨-, -, limits, -, -, -, -, -, hr⟩ := hr
  split at hr
  · cases hr
  · simp only [bind_eq_ok, Envelope.reserveLocked, revertIf_eq_ok, Bool.not_eq_false] at hr
    obtain ⟨-, -, -, -, _, -, -, hadmitted, -⟩ := hr
    exact hadmitted

/-- What an operation that is offered an artifact does if it does not throw. -/
def Accepts (env : Platform) (f : HealthFile) (offer : Offer) (f' : HealthFile) : Prop :=
  (∃ prior, Allowed env
      { now := offer.now, expected := offer.expected, prior, highWater := f.highWater } offer.health = true) ∧
    ∃ envelope, f' = ⟨envelope, some (healthHighWater offer.health f.highWater)⟩

theorem reserve_accepts {day : ℕ} {input : ReserveInput} {offer : Offer} {report : HealthReport}
    (h : f.reserveChallengeSpend env day input offer = .ok (report, f')) : Accepts env f offer f' := by
  simp only [HealthFile.reserveChallengeSpend] at h
  split at h <;> rename_i hreserve
  · obtain ⟨-, rfl⟩ := Prod.mk.inj (Except.ok.inj h)
    exact ⟨⟨offer.prior, reserve_admitted hreserve⟩, _, rfl⟩
  · cases h

theorem reauthorize_accepts {id : String} {offer : Offer} {report : HealthReport}
    (h : f.reauthorizeChallengeReservation env id offer = .ok (report, f')) : Accepts env f offer f' := by
  unfold HealthFile.reauthorizeChallengeReservation at h
  split at h
  · cases h
  · simp only [bind_eq_ok, revertIf_eq_ok, pure_eq_ok, Bool.not_eq_false, Unique.exists_iff,
      Prod.mk.injEq] at h
    obtain ⟨-, hallowed, -, rfl⟩ := h
    exact ⟨⟨none, hallowed⟩, _, rfl⟩

theorem Kept.settle {offer : Offer} {x : Except HealthError (HealthReport × HealthFile)}
    (hk : Kept env f accepted) (hx : ∀ report f', x = .ok (report, f') → Accepts env f offer f') :
    Kept env (f.settle x).2 (match some offer.health, (f.settle x).1 with
      | some health, .ok _ => health :: accepted
      | _, _ => accepted) := by
  cases x with
  | error error => exact hk
  | ok result =>
      obtain ⟨⟨prior, hallowed⟩, envelope, hfile⟩ := hx result.1 result.2 rfl
      have haccept : Kept env result.2 (offer.health :: accepted) := hfile ▸ hk.accept hallowed
      exact haccept

theorem Kept.step (f' : HealthFile) {op : HealthOp} (hk : Kept env f accepted) :
    Kept env (op.run env f).2 (record env f op f' accepted) := by
  cases op with
  | reserve day input offer => exact hk.settle fun _ _ => reserve_accepts
  | reauthorize id offer => exact hk.settle fun _ _ => reauthorize_accepts
  | other op =>
      -- the other operations leave the record as it is
      have hsame : (HealthOp.run env f (.other op)).2.highWater = f.highWater := by
        unfold HealthOp.run
        dsimp only
        split <;> rfl
      exact ⟨hsame ▸ hk.stored, hk.chain, hk.genuine, hsame ▸ hk.recorded, hk.once⟩

theorem kept_of_reachable (hr : ((system env).withHistory [] (record env)).Reachable Free (f, accepted)) :
    Kept env f accepted := by
  refine System.Reachable.invariant (P := fun q => Kept env q.1 q.2) hr ?_ ?_
  · rintro ⟨f, accepted⟩ ⟨hinit, rfl⟩
    constructor
    · exact .inl ⟨rfl, hinit⟩
    · exact .nil
    · exact fun _ h => by cases h
    · exact fun _ _ _ h => by cases h
    · exact .nil
  · rintro ⟨f, accepted⟩ op ⟨f', accepted'⟩ - hk - hstep
    obtain ⟨hrun, hrecord⟩ := System.withHistory_step.mp hstep
    obtain rfl : (op.run env f).2 = f' := Option.some.inj hrun
    obtain rfl : accepted' = record env f op (op.run env f).2 accepted := hrecord
    exact hk.step f

theorem step_accepts {op : HealthOp} {report : HealthReport} (hrun : op.run env f = (.ok report, f'))
    (ho : op.offered = some h) :
    ((system env).withHistory [] (record env)).step (f, accepted) op = some (f', h :: accepted) := by
  have hf : (op.run env f).2 = f' := congrArg Prod.snd hrun
  refine System.withHistory_step.mpr ⟨congrArg some hf, ?_⟩
  unfold record
  rw [hrun, ho]

/-- Each of the accepted generation changes has an authorization of its own. -/
theorem Kept.generationChanges_nodup (hk : Kept env f accepted) :
    ((generationChanges accepted).map fun h => h.counterAcknowledgement.recoveryHash).Nodup := by
  have honce := (hk.once.sublist (generationChanges_sublist accepted)).imp_of_mem
    (S := fun h p => h.counterAcknowledgement.recoveryHash ≠ p.counterAcknowledgement.recoveryHash) ?_
  · exact List.pairwise_map.mpr honce
  · intro h p hh _ hdistinct hsame
    obtain ⟨x, hx⟩ := Option.ne_none_iff_exists'.mp (generationChanges_authorized _ hk.chain h hh)
    exact hdistinct x hx (hsame ▸ hx)

/-! ### A recovery -/

/-- Texts of the forms that the schema asks for. -/
def sampleHash (c : Char) : String := "sha256:" ++ String.ofList (List.replicate 64 c)
def sampleKey (c : Char) : String := "ed25519:" ++ String.ofList (List.replicate 64 c)
def sampleSignature (c : Char) : Signature := ⟨sampleKey c, "ed25519:" ++ String.ofList (List.replicate 128 c)⟩
def sampleBlockHash : String := "0x" ++ String.ofList (List.replicate 64 'a')
def sampleContract : String := "0x" ++ String.ofList (List.replicate 40 'c')

/-- A platform on which every signature is right, for one date and for the artifacts of this run. -/
def samplePlatform : Platform where
  dateParse := fun text => if text = "2026-10-01T00:00:00Z" then some 1790812800000 else none
  toLowerCase := id
  textHash := fun _ => sampleHash 'e'
  artifactHash := fun body => sampleHash (if body.sequence = 1 then '1' else '2')
  authorizationHash := fun body => sampleHash (if body.generation = 1 then '3' else '4')
  incidentHash := fun _ => sampleHash '5'
  verifySignature := fun _ _ _ _ => true

def sampleQueue : QueueMetrics where
  queueHash := sampleHash '6'
  queueBytes := 100
  canonicalByteHeadroom := 1024 * 1024 - 64 * 1024 - 100
  activeJobCount := 1
  queuedJobCount := 1
  ordinaryAdmissionHeadroom := 895
  urgentAdmissionHeadroom := 959
  archiveRecordCount := 0
  tombstoneCount := 0
  oldestQueuedAgeSeconds := some 2
  earliestLiveDeadline := none
  minimumChallengeSlackSeconds := none
  expiredDeadlineCriticalCount := 0
  warningSlackSeconds := 3600
  criticalSlackSeconds := 900
  archiveFault := none
  archiveFaultHistory := none
  runnerPlan := ⟨.start, 1, .green, .green, .green⟩

def sampleScope : IncidentScope := ⟨sampleKey '7', "dgx", "boot", "main", 84532, sampleContract⟩

def sampleExpected : ExpectedHealth := { recoveryPublicKey := some (sampleKey '8') }

/-- An artifact with the given acknowledgement, under which its counters are green. -/
def sampleHealth (sequence : ℕ) (prior : Option String) (acknowledgement : CounterAcknowledgement) :
    HealthArtifact where
  observedAtUtc := "2026-10-01T00:00:00Z"
  sequence := sequence
  priorArtifactHash := prior
  producer := ⟨"dgx", "boot", "main"⟩
  bootTransition := none
  chain := ⟨84532, sampleContract, 100, sampleBlockHash, 1790812800⟩
  counters := acknowledgement.baseline
  counterAcknowledgement := acknowledgement
  queue := sampleQueue
  artifactHash := sampleHash (if sequence = 1 then '1' else '2')
  signature := sampleSignature '7'

/-- An acknowledgement of one kill, authorized for the artifact of this sequence number. -/
def sampleRecovered (generation sequence : ℕ) (prior : Option String) : CounterAcknowledgement where
  generation := generation
  baseline := ⟨1, 0, 0⟩
  acknowledgedBlockNumber := 100
  acknowledgedBlockHash := sampleBlockHash
  recoveryAuthorization := some
    { generation := generation
      priorCounters := .zero
      currentCounters := ⟨1, 0, 0⟩
      baseline := ⟨1, 0, 0⟩
      remediationArtifactHash := sampleHash '9'
      rehearsalArtifactHash := sampleHash '9'
      incidentArtifact :=
        { generation := generation
          counters := ⟨1, 0, 0⟩
          scope := sampleScope
          blockNumber := 50
          blockHash := sampleBlockHash
          blockTime := 1790812800 - 86400
          artifactHash := sampleHash '5'
          signature := sampleSignature '8' }
      incidentArtifactHash := sampleHash '5'
      scope :=
        { toIncidentScope := sampleScope
          targetSequence := sequence
          priorArtifactHash := prior
          targetBlockNumber := 100
          targetBlockHash := sampleBlockHash
          acknowledgementBlockNumber := 100
          acknowledgementBlockHash := sampleBlockHash }
      authorizationHash := sampleHash (if generation = 1 then '3' else '4')
      signature := sampleSignature '8' }

def sampleOffer (health : HealthArtifact) : Offer :=
  { health, now := 1790812800000, expected := sampleExpected }

def sampleInput : ReserveInput := { id := "a", problemId := "p", amountWei := 1 }

theorem matchesFixed_replicate {start : List Char} {lead : String} {kind : Char → Bool} {c : Char} {count : ℕ}
    (hlead : lead.toList = start) (hc : kind c = true) :
    HighWater.matchesFixed start count kind (lead ++ String.ofList (List.replicate count c)) = true := by
  simp [HighWater.matchesFixed, hlead, hc]

theorem isSha256_sampleHash {c : Char} (hc : HighWater.isLowerHex c = true) :
    HighWater.isSha256 (sampleHash c) = true :=
  matchesFixed_replicate (by decide) hc

theorem signature_sample {c : Char} (hc : HighWater.isLowerHex c = true) :
    Schema.signature (sampleSignature c) = true :=
  Bool.and_eq_true_iff.mpr ⟨matchesFixed_replicate rfl hc, matchesFixed_replicate rfl hc⟩

theorem blockHash_sample : Schema.blockHash sampleBlockHash = true := by
  unfold Schema.blockHash HighWater.isBytes32
  exact matchesFixed_replicate (by decide) (by decide)

theorem schema_sampleHealth {sequence : ℕ} {prior : Option String} {acknowledgement : CounterAcknowledgement}
    (hs : Schema.integer 1 sequence = true) (hp : prior.all HighWater.isSha256 = true)
    (ha : Schema.counterAcknowledgement acknowledgement = true) :
    Schema.runnerHealthV2 samplePlatform (sampleHealth sequence prior acknowledgement) = true := by
  have haddress : Schema.address sampleContract = true := matchesFixed_replicate (by decide) (by decide)
  have hhash : HighWater.isSha256 (sampleHash (if sequence = 1 then '1' else '2')) = true := by
    split
    · exact isSha256_sampleHash (by decide)
    · exact isSha256_sampleHash (by decide)
  have hqueue : Schema.queue samplePlatform sampleQueue = true := by
    have hq : HighWater.isSha256 sampleQueue.queueHash = true := isSha256_sampleHash (by decide)
    rw [Schema.queue, hq]
    decide
  have hdate : Schema.dateTime samplePlatform "2026-10-01T00:00:00Z" = true := by decide +kernel
  have hbaseline : Schema.counters acknowledgement.baseline = true := by
    simp only [Schema.counterAcknowledgement, Bool.and_eq_true] at ha
    exact ha.1.1.1.2
  have hsignature : Schema.signature (sampleSignature '7') = true := signature_sample (by decide)
  simp only [Schema.runnerHealthV2, sampleHealth, hdate, hs, hp, haddress, blockHash_sample, hbaseline, ha,
    hqueue, hhash, hsignature, Bool.and_true, Bool.true_and, Option.all_none]
  decide

theorem schema_sampleRecovered {generation sequence : ℕ} {prior : Option String}
    (hg : Schema.integer 1 generation = true) (hs : Schema.integer 1 sequence = true)
    (hp : prior.all HighWater.isSha256 = true) :
    Schema.counterAcknowledgement (sampleRecovered generation sequence prior) = true := by
  have haddress : Schema.address sampleContract = true := matchesFixed_replicate (by decide) (by decide)
  have hscope : Schema.incidentScope sampleScope = true := by
    have hkey : Schema.publicKey (sampleKey '7') = true := matchesFixed_replicate rfl (by decide)
    simp only [Schema.incidentScope, sampleScope, hkey, haddress, Bool.and_true, Bool.true_and]
    decide
  have hhash : HighWater.isSha256 (sampleHash (if generation = 1 then '3' else '4')) = true := by
    split
    · exact isSha256_sampleHash (by decide)
    · exact isSha256_sampleHash (by decide)
  have hincident : HighWater.isSha256 (sampleHash '5') = true := isSha256_sampleHash (by decide)
  have hevidence : HighWater.isSha256 (sampleHash '9') = true := isSha256_sampleHash (by decide)
  have hsignature : Schema.signature (sampleSignature '8') = true := signature_sample (by decide)
  simp only [Schema.counterAcknowledgement, Schema.counterRecovery, Schema.counterIncident, sampleRecovered, hg, hs,
    hp, hscope, blockHash_sample, hhash, hincident, hevidence, hsignature, Option.all_some, Bool.and_true,
    Bool.true_and]
  decide

theorem genuine_sampleHealth {sequence : ℕ} {prior : Option String} {acknowledgement : CounterAcknowledgement}
    (hs : Schema.integer 1 sequence = true) (hp : prior.all HighWater.isSha256 = true)
    (ha : Schema.counterAcknowledgement acknowledgement = true) :
    Genuine samplePlatform (sampleHealth sequence prior acknowledgement) := by
  refine ⟨schema_sampleHealth hs hp ha, ?_⟩
  simp only [checkSignedHash, bind_eq_ok, revertIf_eq_ok]
  exact ⟨(), not_not.mpr rfl, Bool.noConfusion⟩

/-- The first artifact: no incidents, or one that is acknowledged under an authorization. -/
def sampleRoot : Bool → HealthArtifact
  | false => sampleHealth 1 none ⟨1, .zero, 100, sampleBlockHash, none⟩
  | true => sampleHealth 1 none (sampleRecovered 1 1 none)

/-- The next one: a recovery, or the acknowledgement of the first one again. -/
def sampleNext : Bool → HealthArtifact
  | false => sampleHealth 2 (some (sampleHash '1')) (sampleRecovered 2 2 (some (sampleHash '1')))
  | true => sampleHealth 2 (some (sampleHash '1')) (sampleRecovered 1 1 none)

theorem genuine_sampleRoot : ∀ recovered, Genuine samplePlatform (sampleRoot recovered)
  | false => by
      refine genuine_sampleHealth (by decide) rfl ?_
      simp only [Schema.counterAcknowledgement, blockHash_sample, Option.all_none, Bool.and_true]
      decide
  | true => genuine_sampleHealth (by decide) rfl (schema_sampleRecovered (by decide) (by decide) rfl)

theorem genuine_sampleNext (again : Bool) : Genuine samplePlatform (sampleNext again) := by
  have hprior : (some (sampleHash '1')).all HighWater.isSha256 = true := by
    rw [Option.all_some]
    exact isSha256_sampleHash (by decide)
  cases again with
  | false => exact genuine_sampleHealth (by decide) hprior (schema_sampleRecovered (by decide) (by decide) hprior)
  | true => exact genuine_sampleHealth (by decide) hprior (schema_sampleRecovered (by decide) (by decide) rfl)

/-- What remains to be checked of a genuine artifact. -/
theorem allowed_of_genuine {options : AdmissionOptions} (hg : Genuine samplePlatform h)
    (hb : checkBindings samplePlatform options.expected h = .ok ())
    (hroot : (do
      revertIf (∀ observed ∈ samplePlatform.dateParse h.observedAtUtc, observed > options.now ∨
        options.now - observed > options.maxAgeMs ∨ observed ≠ h.chain.blockTime * 1000) "stale time"
      revertIf (decide (h.sequence = 1) ≠ h.priorArtifactHash.isNone) "sequence root"
      revertIf (h.sequence = 1 ∧ h.bootTransition ≠ none) "root cannot be a boot transition"
      revertIf (h.sequence > 1 ∧ options.prior = none ∧ options.highWater = none ∧
        options.permitUnanchoredSequence = false) "sequence predecessor missing") = Except.ok ())
    (hchain : validateChain samplePlatform options h = .ok ())
    (hqueue : validateQueue samplePlatform h.chain.blockTime h.queue = .ok ())
    (hincidents : validateIncidents samplePlatform options h = .ok ()) :
    Allowed samplePlatform options h = true := by
  refine allowed_iff.mpr ⟨?_, hchain, hqueue, hincidents⟩
  unfold validateRoot
  rw [authenticity_eq_ok.mpr ⟨hg, hb⟩]
  exact hroot

theorem allowed_sampleRoot (recovered : Bool) :
    Allowed samplePlatform { now := 1790812800000, expected := sampleExpected } (sampleRoot recovered) = true := by
  refine allowed_of_genuine (genuine_sampleRoot recovered) ?_ ?_ ?_ ?_ ?_
  all_goals cases recovered <;> decide +kernel

/-- The recovery is admitted against the record of the first artifact. -/
theorem allowed_recovery : Allowed samplePlatform
    { now := 1790812800000, expected := sampleExpected,
      highWater := some (healthHighWater (sampleRoot false) none) } (sampleNext false) = true := by
  refine allowed_of_genuine (genuine_sampleNext false) ?_ ?_ ?_ ?_ ?_
  all_goals decide +kernel

/-- The repetition is admitted against the first artifact. -/
theorem allowed_again : Allowed samplePlatform
    { now := 1790812800000, expected := sampleExpected, prior := some (sampleRoot true) } (sampleNext true) =
      true := by
  have hs : Succeeds samplePlatform sampleExpected (healthHighWater (sampleRoot true) none) (sampleNext true) := by
    have hboot : BootFollows (sampleRoot true).producer.bootId (sampleNext true) := by
      unfold BootFollows
      rw [if_neg (by decide +kernel)]
      rfl
    refine ⟨?_, ?_, ?_, ?_, ?_, ?_, hboot⟩
    all_goals decide +kernel
  have hbound : Bound samplePlatform sampleExpected (sampleRoot true) := rfl
  have hchain : validateChain samplePlatform
      { now := 1790812800000, expected := sampleExpected, prior := some (sampleRoot true) } (sampleNext true) =
        .ok () :=
    (validateChain_direct none).mpr ⟨genuine_sampleRoot true, hbound, hs⟩
  refine allowed_of_genuine (genuine_sampleNext true) ?_ ?_ hchain ?_ ?_
  all_goals decide +kernel

def sampleEnvelope : Envelope := ⟨[(0, { reservations := [⟨"a", "p", 1, .reserved, none⟩] })]⟩

theorem run_sampleRoot (recovered : Bool) :
    HealthOp.run samplePlatform {} (.reserve 0 sampleInput (sampleOffer (sampleRoot recovered))) =
      (.ok (.envelope (.reserved 0)), ⟨sampleEnvelope, some (healthHighWater (sampleRoot recovered) none)⟩) := by
  simp only [HealthOp.run, HealthFile.reserveChallengeSpend, sampleOffer, allowed_sampleRoot recovered]
  rfl

theorem run_recovery : HealthOp.run samplePlatform
    ⟨sampleEnvelope, some (healthHighWater (sampleRoot false) none)⟩
      (.reauthorize "a" (sampleOffer (sampleNext false))) =
      (.ok (.reauthorized 2 (sampleHash '2')), ⟨sampleEnvelope, some (healthHighWater (sampleNext false)
        (some (healthHighWater (sampleRoot false) none)))⟩) := by
  simp only [HealthOp.run, HealthFile.reauthorizeChallengeReservation, sampleOffer, allowed_recovery]
  rfl

/-! ### The laws of the chain -/

/-- In every run, each accepted artifact follows the one before it, and the authorizations of those that
changed the generation are distinct.  A successor of the last accepted artifact `p` is admitted against the
record exactly if it is admitted against `p`, unless its recovery authorization is recorded already or `p`
has not the bindings expected now; the authorization of an artifact that repeats the acknowledgement of `p`
is. -/
theorem healthChain_kept (env : Platform) {f : HealthFile} {accepted : List HealthArtifact}
    (hr : ((system env).withHistory [] (record env)).Reachable Free (f, accepted)) :
    accepted.IsChain Follows ∧
      ((generationChanges accepted).map fun h => h.counterAcknowledgement.recoveryHash).Nodup ∧
      (∀ h ∈ generationChanges accepted, h.counterAcknowledgement.recoveryHash ≠ none) ∧
      (accepted = [] → f.highWater = none) ∧
      ∀ p rest, accepted = p :: rest → ∃ w, f.highWater = some w ∧
        w.sequence = p.sequence ∧ w.artifactHash = p.artifactHash ∧
        ∀ (now : ℤ) (expected : ExpectedHealth) (h : HealthArtifact),
          let stored := Allowed env { now, expected, highWater := some w } h
          let direct := Allowed env { now, expected, prior := some p } h
          (Unrecorded w h → Bound env expected p → (stored = true ↔ direct = true)) ∧
            (¬ Unrecorded w h → stored = false) ∧
            (¬ Bound env expected p → direct = false) ∧
            (h.counterAcknowledgement = p.counterAcknowledgement →
              (Unrecorded w h ↔ p.counterAcknowledgement.recoveryAuthorization = none)) := by
  have hk := kept_of_reachable hr
  refine ⟨hk.chain, hk.generationChanges_nodup, generationChanges_authorized _ hk.chain, ?_, ?_⟩
  · rintro rfl
    rcases hk.stored with ⟨-, hnone⟩ | ⟨p, rest, previous, hcons, -⟩
    · exact hnone
    · cases hcons
  · rintro p rest rfl
    rcases hk.stored with ⟨hnil, -⟩ | ⟨q, rest', previous, hcons, hw⟩
    · cases hnil
    obtain ⟨rfl, rfl⟩ := List.cons.inj hcons
    have hp := hk.genuine p (List.mem_cons_self ..)
    refine ⟨_, hw, rfl, rfl, fun now expected h => ?_⟩
    have hiff : Allowed env { now, expected, highWater := some (healthHighWater p previous) } h = true ∧
          Bound env expected p ↔
        Allowed env { now, expected, prior := some p } h = true ∧ Unrecorded (healthHighWater p previous) h :=
      allowed_stored_iff previous hp
    dsimp only
    refine ⟨fun hfresh hbound => ?_, fun hstale => ?_, fun hunbound => ?_, fun hrepeat => ?_⟩
    · constructor
      · exact fun hstored => (hiff.mp ⟨hstored, hbound⟩).1
      · exact fun hdirect => (hiff.mpr ⟨hdirect, hfresh⟩).1
    · refine Bool.eq_false_iff.mpr fun hstored => hstale ?_
      exact (validateChain_stored.mp (allowed_iff.mp hstored).2.1).1
    · refine Bool.eq_false_iff.mpr fun hdirect => hunbound ?_
      exact ((validateChain_direct previous).mp (allowed_iff.mp hdirect).2.1).2.1
    · constructor
      · intro hfresh
        by_contra hsome
        obtain ⟨authorization, ha⟩ := Option.ne_none_iff_exists'.mp hsome
        have hown : authorization.authorizationHash ∈ p.counterAcknowledgement.recoveryHash := by
          rw [CounterAcknowledgement.recoveryHash, ha]
          rfl
        exact hfresh _ (hrepeat ▸ hown) (mem_consumed.mpr (.inl hown))
      · intro hnone recoveryHash hmem
        rw [hrepeat, CounterAcknowledgement.recoveryHash, hnone] at hmem
        cases hmem

theorem healthChain_kept_sample : ∃ (f : HealthFile) (accepted : List HealthArtifact),
    accepted.length = 2 ∧ f.highWater ≠ none ∧ accepted.IsChain Follows ∧
      ((generationChanges accepted).map fun h => h.counterAcknowledgement.recoveryHash).Nodup := by
  have hinit : ((system samplePlatform).withHistory [] (record samplePlatform)).init ({}, []) := ⟨rfl, rfl⟩
  let f : HealthFile :=
    ⟨sampleEnvelope, some (healthHighWater (sampleNext false) (some (healthHighWater (sampleRoot false) none)))⟩
  have hr := ((System.Reachable.of_init (C := Free) hinit).step trivial
    (step_accepts (run_sampleRoot false) rfl)).step trivial (step_accepts run_recovery rfl)
  obtain ⟨hchain, hnodup, -⟩ := healthChain_kept samplePlatform hr
  refine ⟨f, _, rfl, ?_, hchain, hnodup⟩
  exact Option.some_ne_none _

/-- A root that acknowledges an incident under a recovery authorization is accepted.  The artifact after it
repeats its counters and its acknowledgement, and is admitted against it; against the record it is not, because
the authorization counts as consumed. -/
theorem recovery_refuses_successor : ∃ (f : HealthFile) (p h : HealthArtifact),
    ((system samplePlatform).withHistory [] (record samplePlatform)).Reachable Free (f, [p]) ∧
      h.counters = p.counters ∧ h.counterAcknowledgement = p.counterAcknowledgement ∧
      Bound samplePlatform sampleExpected p ∧
      Allowed samplePlatform { now := 1790812800000, expected := sampleExpected, prior := some p } h = true ∧
      Allowed samplePlatform { now := 1790812800000, expected := sampleExpected, highWater := f.highWater } h =
        false := by
  have hinit : ((system samplePlatform).withHistory [] (record samplePlatform)).init ({}, []) := ⟨rfl, rfl⟩
  have hr := (System.Reachable.of_init (C := Free) hinit).step trivial (step_accepts (run_sampleRoot true) rfl)
  have hrecorded : ¬ Unrecorded (healthHighWater (sampleRoot true) none) (sampleNext true) := fun hfresh =>
    hfresh (sampleHash '3') rfl (List.mem_singleton.mpr rfl)
  refine ⟨_, _, sampleNext true, hr, rfl, rfl, rfl, allowed_again, ?_⟩
  refine Bool.eq_false_iff.mpr fun hstored => hrecorded ?_
  exact (validateChain_stored.mp (allowed_iff.mp hstored).2.1).1

end P42Prizes.RunnerHealth
