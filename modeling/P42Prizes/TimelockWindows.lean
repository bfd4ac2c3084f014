import P42Prizes.TimelockLaws

/-! # The window of an operation

`_schedule` records when an operation can first and last be executed, narrowed to 64 bits.  The record
is right exactly when the whole window ends before `2 ^ 64` (`window_exact_iff`), which the bound that
the constructor puts on the delay does not ensure: a delay near the bound gives an override operation
a window that has already begun (`scheduled_window_open`).

* `Tracked`: every recorded operation was scheduled, and executed within its recorded window only.
* `Exact`: the recorded windows of a run whose schedules all fit 64 bits. -/

namespace P42Prizes.Timelock

open Reverting Function Transition

def Config.selectedDelay (c : Config) (overrideClass : Bool) : ℕ :=
  if overrideClass then c.overrideDelay else c.delay

/-- The end of a window fits 64 bits, for an operation scheduled at `now`. -/
def Config.WindowFits (c : Config) (now : ℕ) (overrideClass : Bool) : Prop :=
  now + c.selectedDelay overrideClass + operationGracePeriod < 2 ^ 64

variable {c : Config} {e : Env} {t t' : MultisigTimelock} {w w' : World} {a : Action}

/-! ### One schedule -/

theorem newOp_exact_iff (o : Operation) (cls : Bool) :
    (e.now + c.selectedDelay cls ≤ (MultisigTimelock.newOp c e o cls).eta ∧
      (MultisigTimelock.newOp c e o cls).expiresAt =
        (MultisigTimelock.newOp c e o cls).eta + operationGracePeriod) ↔ c.WindowFits e.now cls := by
  show e.now + c.selectedDelay cls ≤ (e.now + c.selectedDelay cls) % 2 ^ 64 ∧
    ((e.now + c.selectedDelay cls) % 2 ^ 64 + operationGracePeriod) % 2 ^ 64 =
      (e.now + c.selectedDelay cls) % 2 ^ 64 + operationGracePeriod ↔ _
  unfold Config.WindowFits
  generalize e.now + c.selectedDelay cls = eta
  generalize operationGracePeriod = grace
  constructor
  · rintro ⟨heta, hexpires⟩
    have hlt : eta < 2 ^ 64 := heta.trans_lt (Nat.mod_lt _ (by decide))
    rw [Nat.mod_eq_of_lt hlt] at hexpires
    have hlast := Nat.mod_lt (eta + grace) (show 0 < 2 ^ 64 by decide)
    omega
  · intro hlt
    rw [Nat.mod_eq_of_lt (show eta < 2 ^ 64 by omega), Nat.mod_eq_of_lt hlt]
    exact ⟨le_rfl, rfl⟩

theorem newOp_eta (o : Operation) (cls : Bool) (h : c.WindowFits e.now cls) :
    (MultisigTimelock.newOp c e o cls).eta = e.now + c.selectedDelay cls := by
  unfold Config.WindowFits at h
  exact Nat.mod_eq_of_lt (show e.now + c.selectedDelay cls < 2 ^ 64 by omega)

theorem scheduleAs_ops {o : Operation} {cls : Bool} (h : t.scheduleAs c e o cls = .ok t') :
    t'.ops (c.opId o) = MultisigTimelock.newOp c e o cls := by
  simp only [MultisigTimelock.scheduleAs, bind_eq_ok, pure_eq_ok, Unique.exists_iff] at h
  obtain ⟨-, -, rfl⟩ := h
  obtain ⟨events, -, heq⟩ := emitScheduled_eq (t := { t with
    ops := update t.ops (c.opId o) (MultisigTimelock.newOp c e o cls)
    confirmedBy := update t.confirmedBy (c.opId o) (update (t.confirmedBy (c.opId o)) e.sender true) })
    (e := e) (c.opId o) o (MultisigTimelock.newOp c e o cls)
  rw [heq]
  exact update_self ..

/-- A schedule records the window that it should exactly when that window fits 64 bits. -/
theorem window_exact_iff {o : Operation} {cls : Bool} (h : t.scheduleAs c e o cls = .ok t') :
    (e.now + c.selectedDelay cls ≤ (t'.ops (c.opId o)).eta ∧
      (t'.ops (c.opId o)).expiresAt = (t'.ops (c.opId o)).eta + operationGracePeriod) ↔
      c.WindowFits e.now cls := by
  rw [scheduleAs_ops h]
  exact newOp_exact_iff o cls

/-! ### Executions stay within the recorded windows -/

/-- The operation was executed at a time of its recorded window. -/
structure Op.ExecutedAt (op : Op) (time : ℕ) : Prop where
  executed : op.state = .executed
  eta_le : op.eta ≤ time
  le_expiresAt : time ≤ op.expiresAt

theorem Op.ExecutedAt.follows {op op' : Op} {time : ℕ} (h : op.ExecutedAt time)
    (hfollows : op.Follows op') : op'.ExecutedAt time := by
  have hne : op.state ≠ .pending := by rw [h.executed]; exact nofun
  rw [hfollows.final hne]
  exact h

theorem Op.ExecutedAt.scheduled {op : Op} {time : ℕ} (h : op.ExecutedAt time) : op.state ≠ .none := by
  rw [h.executed]
  exact nofun

/-- The events tell the life of every operation. -/
structure Tracked (c : Config) (w : World) : Prop where
  scheduled : ∀ log ∈ w.timelock.logs, ∀ id o eta, log.event = .scheduled id o eta →
    id = c.opId o ∧ (w.timelock.ops id).state ≠ .none ∧ (w.timelock.ops id).eta = eta
  recorded : ∀ id, (w.timelock.ops id).state ≠ .none →
    ∃ log ∈ w.timelock.logs, ∃ o, log.event = .scheduled id o (w.timelock.ops id).eta
  executed : ∀ log ∈ w.timelock.logs, ∀ id target value, log.event = .executed id target value →
    (w.timelock.ops id).ExecutedAt log.tx.timestamp
  executing : ∀ o previousOverride entered, .execution o previousOverride entered ∈ w.frames →
    (w.timelock.ops (c.opId o)).ExecutedAt w.tx.timestamp

section

variable {scheduled : Option Bool} {frame : Option Frame} {events : List Event}

/-- A call emits no event of an operation's life but `Scheduled`, for an operation that is new. -/
theorem Move.mem_events (h : Move c e t t' scheduled frame events) {ev : Event} (hev : ev ∈ events) :
    ev.lifecycle = false ∨ ∃ o cls, scheduled = some cls ∧
      ev = .scheduled (c.opId o) o (MultisigTimelock.newOp c e o cls).eta ∧
      t'.ops (c.opId o) = MultisigTimelock.newOp c e o cls := by
  cases h with
  | quiet _ _ _ hquiet _ => exact .inl (hquiet ev hev)
  | @scheduled events o cls _ _ hops _ _ hquiet =>
      obtain hev | hev := List.mem_append.mp hev
      · exact .inl (hquiet ev hev)
      · refine .inr ⟨o, cls, rfl, List.mem_singleton.mp hev, ?_⟩
        rw [hops, update_self]
  | advanced _ _ _ _ _ _ hquiet => exact .inl (hquiet ev hev)
  | began _ _ _ => cases hev
  | governed _ _ _ _ _ hquiet => exact .inl (hquiet ev hev)

/-- A call that records a new operation emits its `Scheduled` event. -/
theorem Move.recorded (h : Move c e t t' scheduled frame events) {id : Bytes32} (hid : (t.ops id).state = .none)
    (hid' : (t'.ops id).state ≠ .none) : ∃ o, .scheduled id o (t'.ops id).eta ∈ events := by
  cases h with
  | quiet hops _ _ _ _ =>
      rw [hops] at hid'
      exact absurd hid hid'
  | @scheduled events o cls _ _ hops _ _ _ =>
      have heq : id = c.opId o := by
        by_contra hne
        rw [hops, update_of_ne hne] at hid'
        exact hid' hid
      subst heq
      refine ⟨o, ?_⟩
      rw [hops, update_self]
      exact List.mem_append_right _ (List.mem_singleton_self _)
  | advanced id' op hadv hops _ _ _ =>
      have hne : id ≠ id' := by
        rintro rfl
        rw [hadv.pending] at hid
        cases hid
      rw [hops, update_of_ne hne] at hid'
      exact absurd hid hid'
  | began o hready heq =>
      have hne : id ≠ c.opId o := by
        rintro rfl
        rw [hready.pending] at hid
        cases hid
      subst heq
      change (update t.ops _ _ id).state ≠ .none at hid'
      rw [update_of_ne hne] at hid'
      exact absurd hid hid'
  | governed _ _ hops _ _ _ =>
      rw [hops] at hid'
      exact absurd hid hid'

/-- An execution begins within the recorded window. -/
theorem Move.executing {o : Operation} {previousOverride entered : Bool}
    (h : Move c e t t' scheduled (some (.execution o previousOverride entered)) events) :
    (t'.ops (c.opId o)).ExecutedAt e.now := by
  cases h with
  | quiet _ _ _ _ hframe => exact absurd rfl (hframe o previousOverride entered)
  | began _ hready heq =>
      subst heq
      show (update t.ops _ _ (c.opId o)).ExecutedAt e.now
      rw [update_self]
      exact ⟨rfl, hready.eta_le, hready.le_expiresAt⟩

/-- The events of a call are new, the others are those of before. -/
theorem Logged.mem (h : Logged e t t' events) {log : Log} :
    log ∈ t'.logs ↔ (log.tx = e.tx ∧ log.event ∈ events) ∨ log ∈ t.logs := by
  rw [h, List.mem_append, List.mem_map]
  constructor
  · rintro (⟨ev, hev, rfl⟩ | hlog)
    · exact .inl ⟨rfl, hev⟩
    · exact .inr hlog
  · rintro (⟨htx, hev⟩ | hlog)
    · refine .inl ⟨log.event, hev, ?_⟩
      rw [← htx]
    · exact .inr hlog

theorem Tracked.called {frames : List Frame} (h : Tracked c ⟨t, frames, e.tx⟩)
    (hlogged : Logged e t t' events) (hmove : Move c e t t' scheduled frame events) :
    Tracked c ⟨t', frame.toList ++ frames, e.tx⟩ where
  scheduled log hlog id o eta hevent := by
    obtain ⟨-, hev⟩ | hlog := hlogged.mem.mp hlog
    · obtain hlife | ⟨o', cls, -, heq, hop⟩ := hmove.mem_events hev
      · rw [hevent] at hlife
        cases hlife
      · rw [hevent] at heq
        obtain ⟨rfl, rfl, rfl⟩ := Event.scheduled.inj heq
        refine ⟨rfl, ?_, ?_⟩
        · rw [hop]
          exact nofun
        · rw [hop]
    · obtain ⟨hid, hstate, heta⟩ := h.scheduled log hlog id o eta hevent
      have hfollows := hmove.follows hstate
      exact ⟨hid, hfollows.scheduled, hfollows.eta.trans heta⟩
  recorded id hid := by
    by_cases hold : (t.ops id).state = .none
    · obtain ⟨o, hev⟩ := hmove.recorded hold hid
      exact ⟨⟨e.tx, _⟩, hlogged.mem.mpr (.inl ⟨rfl, hev⟩), o, rfl⟩
    · obtain ⟨log, hlog, o, hevent⟩ := h.recorded id hold
      refine ⟨log, hlogged.mem.mpr (.inr hlog), o, ?_⟩
      rw [hevent, (hmove.follows hold).eta]
  executed log hlog id target value hevent := by
    obtain ⟨-, hev⟩ | hlog := hlogged.mem.mp hlog
    · obtain hlife | ⟨o', cls, -, heq, -⟩ := hmove.mem_events hev
      · rw [hevent] at hlife
        cases hlife
      · rw [hevent] at heq
        cases heq
    · have hat := h.executed log hlog id target value hevent
      exact hat.follows (hmove.follows hat.scheduled)
  executing o previousOverride entered hframe := by
    obtain hframe | hframe := List.mem_append.mp hframe
    · obtain rfl := Option.mem_toList.mp hframe
      exact hmove.executing
    · have hat := h.executing o previousOverride entered hframe
      exact hat.follows (hmove.follows hat.scheduled)

end

/-- The frames matter through their operations only. -/
theorem Tracked.frames {tx tx' : Tx} {frames frames' : List Frame} (h : Tracked c ⟨t, frames, tx⟩)
    (hframes : ∀ o p b, .execution o p b ∈ frames' → tx' = tx ∧ ∃ b', .execution o p b' ∈ frames) :
    Tracked c ⟨t, frames', tx'⟩ where
  scheduled := h.scheduled
  recorded := h.recorded
  executed := h.executed
  executing o p b hframe := by
    obtain ⟨rfl, b', hmem⟩ := hframes o p b hframe
    exact h.executing o p b' hmem

/-- An event at the end of a call to another address. -/
theorem Tracked.emit {frames : List Frame} {event : Event} (h : Tracked c ⟨t, frames, e.tx⟩)
    (hscheduled : ∀ id o eta, event ≠ .scheduled id o eta)
    (hexecuted : ∀ id target value, event = .executed id target value →
      (t.ops id).ExecutedAt e.tx.timestamp) : Tracked c ⟨t.emit e event, frames, e.tx⟩ where
  scheduled log hlog id o eta hevent := by
    obtain rfl | hlog := List.mem_cons.mp hlog
    · exact absurd hevent (hscheduled id o eta)
    · exact h.scheduled log hlog id o eta hevent
  recorded id hid := by
    obtain ⟨log, hlog, hevent⟩ := h.recorded id hid
    exact ⟨log, List.mem_cons_of_mem _ hlog, hevent⟩
  executed log hlog id target value hevent := by
    obtain rfl | hlog := List.mem_cons.mp hlog
    · exact hexecuted id target value hevent
    · exact h.executed log hlog id target value hevent
  executing := h.executing

theorem Tracked.override {frames : List Frame} {tx : Tx} {flag : Bool} (h : Tracked c ⟨t, frames, tx⟩) :
    Tracked c ⟨{ t with executingOverride := flag }, frames, tx⟩ :=
  ⟨h.scheduled, h.recorded, h.executed, h.executing⟩

theorem Stepped.tracked (h : Stepped c w a w') (htracked : Tracked c w) : Tracked c w' := by
  cases h with
  | transacted hframes _ _ =>
      refine htracked.frames (fun o p b hframe => ?_)
      rw [hframes] at hframe
      cases hframe
  | @called sender f t frame _ hrun =>
      obtain ⟨events, hlogged, hmove⟩ := run_move hrun
      exact Tracked.called (e := ⟨sender, w.tx⟩) htracked hlogged hmove
  | @selfCalled o previousOverride frames f t frame hframes _ _ hrun =>
      obtain ⟨events, hlogged, hmove⟩ := run_move hrun
      refine Tracked.called (e := ⟨c.address, w.tx⟩) (htracked.frames (fun o p b hframe => ?_)) hlogged hmove
      rw [hframes]
      obtain heq | hframe := List.mem_cons.mp hframe
      · obtain ⟨rfl, rfl, rfl⟩ := Frame.execution.inj heq
        exact ⟨rfl, false, List.mem_cons_self⟩
      · exact ⟨rfl, b, List.mem_cons_of_mem _ hframe⟩
  | @returned o previousOverride entered frames hframes _ =>
      have hat := htracked.executing o previousOverride entered (by rw [hframes]; exact List.mem_cons_self)
      refine Tracked.emit (e := ⟨0, w.tx⟩) (htracked.frames (fun o p b hframe => ?_)).override nofun ?_
      · rw [hframes]
        exact ⟨rfl, b, List.mem_cons_of_mem _ hframe⟩
      · rintro id target value heq
        obtain ⟨rfl, -, -⟩ := Event.executed.inj heq
        exact hat
  | @paused caller target selector frames hframes _ =>
      refine Tracked.emit (e := ⟨0, w.tx⟩) (htracked.frames (fun o p b hframe => ?_)) nofun nofun
      rw [hframes]
      exact ⟨rfl, b, List.mem_cons_of_mem _ hframe⟩

theorem tracked_of_reachable (h : (timelock c).Reachable Free w) : Tracked c w := by
  refine h.invariant ?_ (fun w a w' _ htracked _ hstep => (step_stepped hstep).tracked htracked)
  rintro w ⟨signers, threshold, guardian, hok, hframes⟩
  obtain ⟨-, -, -, -, -, hops, hlogs, -⟩ := construct_ok hok
  constructor
  · rw [hlogs]
    exact nofun
  · rw [hops]
    exact fun _ hne => absurd rfl hne
  · rw [hlogs]
    exact nofun
  · rw [hframes]
    exact nofun

/-! ### Runs whose windows fit -/

/-- The class of the operation that a step schedules, if any. -/
def Action.scheduledClass (c : Config) (w : World) : Action → Option Bool
  | .call _ f => f.scheduledClass
  | .selfCall =>
      match w.frames with
      | .execution o _ _ :: _ => (c.dispatch o.data).bind TimelockCall.scheduledClass
      | _ => none
  | _ => none

/-- The window of the operation that the step schedules, if it schedules one, fits 64 bits. -/
def FitsUint64 (c : Config) (w : World) (a : Action) : Prop :=
  ∀ cls ∈ a.scheduledClass c w, c.WindowFits w.tx.timestamp cls

/-- The windows that the source promises. -/
def Exact (c : Config) (t : MultisigTimelock) : Prop :=
  ∀ log ∈ t.logs, ∀ id o eta, log.event = .scheduled id o eta →
    (t.ops id).eta = log.tx.timestamp + c.selectedDelay (t.ops id).overrideClass ∧
    (t.ops id).expiresAt = (t.ops id).eta + operationGracePeriod

theorem Exact.called {scheduled : Option Bool} {frame : Option Frame} {events : List Event}
    {frames : List Frame} (h : Exact c t) (htracked : Tracked c ⟨t, frames, e.tx⟩)
    (hlogged : Logged e t t' events) (hmove : Move c e t t' scheduled frame events)
    (hfits : ∀ cls ∈ scheduled, c.WindowFits e.now cls) : Exact c t' := by
  intro log hlog id o eta hevent
  obtain ⟨htx, hev⟩ | hlog := hlogged.mem.mp hlog
  · obtain hlife | ⟨o', cls, hcls, heq, hop⟩ := hmove.mem_events hev
    · rw [hevent] at hlife
      cases hlife
    · rw [hevent] at heq
      obtain ⟨rfl, rfl, -⟩ := Event.scheduled.inj heq
      have hfit := hfits cls hcls
      rw [hop, htx]
      exact ⟨newOp_eta o cls hfit, ((newOp_exact_iff o cls).mpr hfit).2⟩
  · have hstate := (htracked.scheduled log hlog id o eta hevent).2.1
    have hfollows := hmove.follows hstate
    obtain ⟨heta, hexpires⟩ := h log hlog id o eta hevent
    rw [hfollows.eta, hfollows.expiresAt, hfollows.overrideClass]
    exact ⟨heta, hexpires⟩

theorem Exact.emit {event : Event} (h : Exact c t) (hscheduled : ∀ id o eta, event ≠ .scheduled id o eta) :
    Exact c (t.emit e event) := by
  intro log hlog id o eta hevent
  obtain rfl | hlog := List.mem_cons.mp hlog
  · exact absurd hevent (hscheduled id o eta)
  · exact h log hlog id o eta hevent

theorem Stepped.exact (h : Stepped c w a w') (htracked : Tracked c w) (hfits : FitsUint64 c w a)
    (hexact : Exact c w.timelock) : Exact c w'.timelock := by
  cases h with
  | transacted _ _ _ => exact hexact
  | @called sender f t frame _ hrun =>
      obtain ⟨events, hlogged, hmove⟩ := run_move hrun
      exact hexact.called (e := ⟨sender, w.tx⟩) htracked hlogged hmove hfits
  | @selfCalled o previousOverride frames f t frame hframes hdispatch _ hrun =>
      obtain ⟨events, hlogged, hmove⟩ := run_move hrun
      refine hexact.called (e := ⟨c.address, w.tx⟩) htracked hlogged hmove (fun cls hcls => hfits cls ?_)
      rw [Action.scheduledClass, hframes]
      simp only [hdispatch, Option.bind_some]
      exact hcls
  | returned _ _ => exact Exact.emit hexact nofun
  | paused _ _ => exact Exact.emit hexact nofun

theorem exact_of_reachable (h : (timelock c).Reachable (FitsUint64 c) w) : Exact c w.timelock := by
  refine h.invariant ?_ (fun w a w' hreach hexact hfits hstep =>
    (step_stepped hstep).exact (tracked_of_reachable hreach.free) hfits hexact)
  rintro w ⟨signers, threshold, guardian, hok, -⟩
  obtain ⟨-, -, -, -, -, -, hlogs, -⟩ := construct_ok hok
  unfold Exact
  rw [hlogs]
  exact nofun

/-- In a run whose windows fit 64 bits, every operation has the window that the source promises and is
executed within it; and one schedule records its window exactly when the window fits. -/
theorem windowLaws (h : (timelock c).Reachable (FitsUint64 c) w) :
    (∀ log ∈ w.timelock.logs, ∀ id o eta, log.event = .scheduled id o eta →
      (w.timelock.ops id).eta = log.tx.timestamp + c.selectedDelay (w.timelock.ops id).overrideClass ∧
      (w.timelock.ops id).expiresAt = (w.timelock.ops id).eta + operationGracePeriod) ∧
    (∀ log ∈ w.timelock.logs, ∀ id target value, log.event = .executed id target value →
      (∃ log' ∈ w.timelock.logs, ∃ o eta, log'.event = .scheduled id o eta) ∧
      (w.timelock.ops id).eta ≤ log.tx.timestamp ∧ log.tx.timestamp ≤ (w.timelock.ops id).expiresAt) ∧
    ∀ (e : Env) (o : Operation) (cls : Bool) (t t' : MultisigTimelock), t.scheduleAs c e o cls = .ok t' →
      ((e.now + c.selectedDelay cls ≤ (t'.ops (c.opId o)).eta ∧
        (t'.ops (c.opId o)).expiresAt = (t'.ops (c.opId o)).eta + operationGracePeriod) ↔
        c.WindowFits e.now cls) := by
  have htracked := tracked_of_reachable h.free
  refine ⟨exact_of_reachable h, ?_, fun e o cls t t' hok => window_exact_iff hok⟩
  intro log hlog id target value hevent
  have hat := htracked.executed log hlog id target value hevent
  obtain ⟨log', hlog', o, hevent'⟩ := htracked.recorded id hat.scheduled
  exact ⟨⟨log', hlog', o, _, hevent'⟩, hat.eta_le, hat.le_expiresAt⟩

instance (c : Config) (now : ℕ) (cls : Bool) : Decidable (c.WindowFits now cls) :=
  inferInstanceAs (Decidable (_ < _))

instance (c : Config) (w : World) (a : Action) : Decidable (FitsUint64 c w a) :=
  inferInstanceAs (Decidable (∀ cls ∈ a.scheduledClass c w, c.WindowFits w.tx.timestamp cls))

/-- With a delay of one day, an override operation is executed two days after its schedule. -/
theorem windowLaws_execution : ∃ w,
    (timelock (Sample.config 86400)).Reachable (FitsUint64 (Sample.config 86400)) w ∧
    (∃ log ∈ w.timelock.logs, log.event = .executed ((Sample.config 86400).opId Sample.operation) 1000 0) ∧
    ∀ log ∈ w.timelock.logs, ∀ id o eta, log.event = .scheduled id o eta →
      (w.timelock.ops id).eta = log.tx.timestamp +
        (Sample.config 86400).selectedDelay (w.timelock.ops id).overrideClass ∧
      (w.timelock.ops id).expiresAt = (w.timelock.ops id).eta + operationGracePeriod := by
  have hexec : ((timelock (Sample.config 86400)).execIf (FitsUint64 (Sample.config 86400))
      (Sample.deployed 86400) (Sample.execution ++ [.selfCall, .finish])).map
        (fun w => decide (∃ log ∈ w.timelock.logs,
          log.event = .executed ((Sample.config 86400).opId Sample.operation) 1000 0)) = some true := by
    decide +kernel
  obtain ⟨w, hw, hfacts⟩ := Option.map_eq_some_iff.mp hexec
  have hreach : (timelock (Sample.config 86400)).Reachable (FitsUint64 (Sample.config 86400)) w :=
    .of_execIf (Sample.deployed_init (by decide +kernel)) hw
  exact ⟨w, hreach, of_decide_eq_true hfacts, (windowLaws hreach).1⟩

/-! ### A window that has already begun -/

/-- The largest delay that the constructor accepts. -/
def longestDelay : ℕ := 2 ^ 63 - 1

/-- The operation is confirmed and executed in the block of its schedule. -/
def immediate : List Action := Sample.confirmations ++ [.call 101 (.execute Sample.operation), .selfCall, .finish]

/-- With the longest delay, an override operation is executed in the block it is scheduled in: its
window begins two seconds before that block. -/
theorem scheduled_window_open : ∃ w, (timelock (Sample.config longestDelay)).Reachable Free w ∧
    ⟨Sample.tx 1700000000, .scheduled ((Sample.config longestDelay).opId Sample.operation) Sample.operation
      1699999998⟩ ∈ w.timelock.logs ∧
    ⟨Sample.tx 1700000000, .executed ((Sample.config longestDelay).opId Sample.operation) 1000 0⟩ ∈
      w.timelock.logs ∧
    ¬ 1700000000 + (Sample.config longestDelay).overrideDelay ≤
      (w.timelock.ops ((Sample.config longestDelay).opId Sample.operation)).eta := by
  have hexec : ((timelock (Sample.config longestDelay)).exec (Sample.deployed longestDelay) immediate).map
      (fun w => decide (
        ⟨Sample.tx 1700000000, .scheduled ((Sample.config longestDelay).opId Sample.operation)
          Sample.operation 1699999998⟩ ∈ w.timelock.logs ∧
        ⟨Sample.tx 1700000000, .executed ((Sample.config longestDelay).opId Sample.operation) 1000 0⟩ ∈
          w.timelock.logs ∧
        ¬ 1700000000 + (Sample.config longestDelay).overrideDelay ≤
          (w.timelock.ops ((Sample.config longestDelay).opId Sample.operation)).eta)) = some true := by
    decide +kernel
  obtain ⟨w, hw, hfacts⟩ := Option.map_eq_some_iff.mp hexec
  exact ⟨w, .of_exec (Sample.deployed_init (by decide +kernel)) hw, of_decide_eq_true hfacts⟩

end P42Prizes.Timelock
