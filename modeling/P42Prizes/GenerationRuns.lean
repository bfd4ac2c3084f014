import P42Prizes.GenerationLaws

/-! # Publications over whole runs

In a run of publications that may be stopped anywhere, and of damages to the accepted generation, the
pointer names a generation that is validated, the accepted generations are one chain, a candidate that is
rejected changes nothing, one that is not rejected is published, and one that was interrupted is published
as the same generation when it is offered again. -/

namespace P42Prizes.Generations

open JsonText Passes Reverting Transition
open Service (Plan predecessorOf recoveryOf isExactRetry pointerOf)

section Again

variable {svc : Service} {S : Set Bytes} {root s : Root} {log : List Event} {current : Option Current}
  {stage stage' : Directory} {plan : Plan} {q : Pointer} {storageId rejected : Bytes} {x : Content}
  {metadata : Metadata}

/-- What is read depends on the pointer and on the directory it names. -/
theorem readCurrentGeneration_congr (hcurrent : s.current = root.current)
    (hstorage : ∀ q, root.current = some q → s.generations q.storage = root.generations q.storage) :
    svc.readCurrentGeneration s = svc.readCurrentGeneration root := by
  unfold Service.readCurrentGeneration
  rw [hcurrent]
  cases hq : root.current with
  | none => rfl
  | some q =>
      have hsame : s.generations (q.storageId.getD q.generationId) =
          root.generations (q.storageId.getD q.generationId) := hstorage q hq
      simp only [hsame]

/-- The stage holds the content that is bound to an id. -/
structure Offers (svc : Service) (S : Set Bytes) (stage : Directory) (x : Content) (stream id : Bytes) : Prop where
  file : svc.validatePublicationCheckpoint stage.checkpoint = .ok x.checkpoint
  leads : stage.archive.any Entry.leadsToDirectory = true
  archive : stage.archive = some x.archive
  visited : visit [] x.archive = .ok stream
  digest : svc.archiveTreeDigest stage.archive = .ok (svc.sha256 stream)
  bound : svc.generationId x.checkpoint (svc.sha256 stream) x.previous = id
  hashed : stream ∈ S
  identity : Service.identityText x.checkpoint (svc.sha256 stream) x.previous ∈ S

theorem offers {id : Bytes} (hx : x.Bound svc S id) (hcheckpoint : stage.checkpoint = some x.checkpoint)
    (harchive : stage.archive = some x.archive) : ∃ stream, Offers svc S stage x stream id := by
  obtain ⟨stream, hmem, hvisit, hidentity, hid⟩ := hx.hashed
  refine ⟨stream, by rw [hcheckpoint]; exact hx.valid, ?_, harchive, hvisit, ?_, hid.symm, hmem, hidentity⟩
  · rw [harchive, Option.any_some]
    have hdirectory := hx.isDirectory
    cases harch : x.archive with
    | directory entries => rfl
    | file bytes | symbolicLink toDirectory | unsupported =>
        rw [harch] at hdirectory
        cases hdirectory
  · rw [harchive]
    simp only [Service.archiveTreeDigest, hvisit, bind, Except.bind, pure, Except.pure]

/-- The plan that accepts a content again. -/
def samePlan (svc : Service) (x : Content) (stream id : Bytes) : Plan :=
  ⟨⟨.unchanged, some (toBlock x.checkpoint), toBlock x.checkpoint⟩, x.checkpoint, svc.sha256 stream, id⟩

theorem decideGeneration_retry {stream : Bytes} (h : Offers svc S stage x stream q.generationId)
    (hprevious : metadata.previousGenerationId = x.previous) :
    svc.decideGeneration (some (.validated ⟨.v3, q.generationId, storageId, x.previous⟩ x.checkpoint metadata))
      stage = .ok (samePlan svc x stream q.generationId) := by
  unfold Service.decideGeneration
  simp only [h.file, h.leads, h.digest, monotonicCheckpointDecision_self, hprevious, h.bound, revertIf, bind,
    Except.bind, pure, Except.pure, Bool.true_eq_false, if_false, ne_eq, not_true_eq_false, and_false]
  rfl

/-- The stage is a candidate for the generation `id`. -/
def Offered (svc : Service) (S : Set Bytes) (root : Root) (stage : Directory) (id : Bytes) : Prop :=
  ∃ current plan, svc.readCurrentGeneration root = .ok current ∧ Current.Reads svc S root current ∧
    svc.decideGeneration current stage = .ok plan ∧ plan.id = id ∧ Hashed S root current stage plan

/-- The pointer is as it was, and so is what it names. -/
theorem offered_of_same (hread : svc.readCurrentGeneration root = .ok current)
    (hreads : ∃ current, svc.readCurrentGeneration s = .ok current ∧ Current.Reads svc S s current)
    (hdecide : svc.decideGeneration current stage = .ok plan) (hhashed : Hashed S root current stage plan)
    (hcurrent : s.current = root.current)
    (hstorage : ∀ q, root.current = some q → s.generations q.storage = root.generations q.storage) :
    Offered svc S s stage plan.id := by
  obtain ⟨current', hread', hreads'⟩ := hreads
  obtain rfl : current' = current := by
    rw [readCurrentGeneration_congr hcurrent hstorage, hread] at hread'
    exact (Except.ok.inj hread').symm
  refine ⟨current', plan, hread', hreads', hdecide, rfl, hhashed.stream, hhashed.identity, ?_⟩
  have hrecovery : recoveryOf s plan current' = recoveryOf root plan current' := by
    cases hreads' with
    | none hq => rfl
    | validated hq names hdirectory valid harchive hprevious => rfl
    | damaged hq names hdamaged =>
        have hsame := hstorage _ (hcurrent.symm.trans hq)
        rw [Pointer.storage, names.storage, Option.getD_some] at hsame
        simp only [recoveryOf, hsame]
  rw [hrecovery]
  exact hhashed.recovery

/-- The pointer names the content of the stage. -/
theorem offered_of_names (hsvc : svc.Lawful) (hS : Set.InjOn svc.sha256 S)
    (hreads : ∃ current, svc.readCurrentGeneration s = .ok current ∧ Current.Reads svc S s current)
    (hq : s.current = some q) (hnames : q.Names svc S storageId x)
    (hintact : s.Intact svc q.generationId storageId)
    (hcheckpoint : stage.checkpoint = some x.checkpoint) (harchive : stage.archive = some x.archive) :
    Offered svc S s stage q.generationId := by
  obtain ⟨current, hread, hreads⟩ := hreads
  cases hreads with
  | none hnone =>
      rw [hq] at hnone
      cases hnone
  | damaged hq' names hdamaged =>
      rw [hq] at hq'
      cases hq'
      obtain rfl := Option.some.inj (hnames.storage.symm.trans names.storage)
      exact absurd hintact hdamaged
  | @validated q' storageId' x' directory metadata hq' names hdirectory valid harch hprevious =>
      rw [hq] at hq'
      cases hq'
      obtain rfl := hnames.bound.unique hsvc hS names.bound
      obtain ⟨stream, hoffers⟩ := offers hnames.bound hcheckpoint harchive
      refine ⟨_, samePlan svc x stream q.generationId, hread,
        .validated hq names hdirectory valid harch hprevious, decideGeneration_retry hoffers hprevious, rfl,
        ?_, ?_, fun recovery hrecovery => by cases hrecovery⟩
      · intro archive harchive' stream' hvisit'
        rw [harchive] at harchive'
        cases harchive'
        rw [hoffers.visited] at hvisit'
        cases hvisit'
        exact hoffers.hashed
      · simp only [samePlan, predecessorOf, Option.bind_some, if_true, Current.pointer]
        exact hoffers.identity

theorem finished_archive (hplan : Decided svc current stage plan) (hhashed : Hashed S root current stage plan) :
    ∃ archive, stage.archive = some archive ∧ stage.checkpoint = some plan.candidate ∧
      Content.Bound svc S ⟨plan.candidate, archive, predecessorOf plan current⟩ plan.id := by
  obtain ⟨archive, harchive, hbound⟩ := hplan.bound hhashed
  exact ⟨archive, harchive, (validatePublicationCheckpoint_eq_ok hplan.file).1, hbound⟩

/-- Wherever the publication of a plan was stopped, its stage is a candidate for the same generation. -/
theorem Sound.offered (hsvc : svc.Lawful) (hS : Set.InjOn svc.sha256 S) (h : Sound svc S (root, log))
    (hread : svc.readCurrentGeneration root = .ok current) (hcurrent : Current.Reads svc S root current)
    (hdecide : svc.decideGeneration current stage = .ok plan) (hhashed : Hashed S root current stage plan)
    {log' : List Event} (hs : Sound svc S (s, log')) (hvisited : Visited svc root current plan stage s) :
    Offered svc S s stage plan.id := by
  have hreads := hs.reads hsvc hS
  have hplan := decideGeneration_eq_ok hcurrent hdecide
  cases hvisited with
  | kept hsame =>
      exact offered_of_same hread hreads hdecide hhashed hsame.current (fun q _ => by rw [hsame.generations])
  | confirmed hretry hcleared =>
      obtain ⟨q, x, xs, hxs, hq, hnames, hintact⟩ := h.tip_of_validated hsvc hS hcurrent hretry
      obtain ⟨-, hsame, hkept⟩ := h.cleared hsvc hS hxs hq hnames hintact hcleared
      refine offered_of_same hread hreads hdecide hhashed hsame (fun p hp => ?_)
      rw [hq] at hp
      cases hp
      rw [Pointer.storage, hnames.storage, Option.getD_some]
      exact hkept
  | placed hretry hfit hsame hgenerations =>
      refine offered_of_same hread hreads hdecide hhashed hsame (fun p hp => ?_)
      obtain ⟨xs, hxs, htip⟩ := h.chronicle
      cases xs with
      | nil =>
          rw [show root.current = none from htip] at hp
          cases hp
      | cons head rest =>
          obtain ⟨hsome, storageId, hnames, -⟩ := htip
          rw [hp] at hsome
          cases hsome
          rw [Pointer.storage, hnames.storage, Option.getD_some, hgenerations, Function.update_of_ne
            (target_ne hsvc hS hp hnames hcurrent hplan hhashed hretry).symm]
  | accepted hretry hfit hnew hgenerations hcleared =>
      obtain ⟨x, xs, hxs, hnames, hintact, hsound⟩ :=
        h.accepted hsvc hS hcurrent hplan hhashed hretry hfit hnew hgenerations
      obtain ⟨-, hsame, hkept⟩ := hsound.cleared hsvc hS hxs hnew hnames hintact hcleared
      obtain ⟨archive, harchive, hcheckpoint, hbound⟩ := finished_archive hplan hhashed
      have hid : (pointerOf plan current (target svc root current plan)).generationId = plan.id := rfl
      have hx := hnames.bound
      rw [hid] at hx
      obtain rfl := hbound.unique hsvc hS hx
      obtain ⟨directory, checkpoint, metadata, hdirectory, hvalid⟩ := hintact
      exact offered_of_names hsvc hS hreads (hsame.trans hnew) hnames
        ⟨directory, checkpoint, metadata, hkept.trans hdirectory, hvalid⟩ hcheckpoint harchive

/-- A candidate is published as its generation. -/
theorem Offered.published (hsvc : svc.Lawful) (hS : Set.InjOn svc.sha256 S) {id : Bytes}
    (h : Sound svc S (root, log)) (hoffered : Offered svc S root stage id)
    (hcheckpoint : stage'.checkpoint = stage.checkpoint) (harchive : stage'.archive = stage.archive)
    (rejected : Bytes) :
    ∃ n published root' left, svc.publish root stage' rejected n = (.ok published, root', left) ∧
      published.generationId = id ∧ ∃ q, root'.current = some q ∧ q.generationId = id := by
  obtain ⟨current, plan, hread, hcurrent, hdecide, hid, hhashed⟩ := hoffered
  have hstaged := h.staged stage'
  have hreads : ∃ current, svc.readCurrentGeneration { root with stage := some stage' } = .ok current ∧
      Current.Reads svc S { root with stage := some stage' } current := hstaged.reads hsvc hS
  have hdecide' : svc.decideGeneration current stage' = .ok plan := by
    rw [decideGeneration_congr hcheckpoint harchive, hdecide]
  have hhashed' : Hashed S { root with stage := some stage' } current stage' plan := by
    refine ⟨?_, hhashed.identity, hhashed.recovery⟩
    rw [harchive]
    exact hhashed.stream
  obtain ⟨current', hread', hcurrent'⟩ := hreads
  obtain rfl : current' = current := by
    rw [show svc.readCurrentGeneration { root with stage := some stage' } = svc.readCurrentGeneration root
      from rfl, hread] at hread'
    exact (Except.ok.inj hread').symm
  have hplan := decideGeneration_eq_ok hcurrent' hdecide'
  obtain ⟨xs, t, htraces, -, hended⟩ := publish_published rejected hsvc rfl hread' hcurrent'
    ⟨hdecide', hstaged.fits hsvc hS hcurrent' hplan hhashed'⟩
  refine ⟨xs.length + 0, _, t, 0, htraces.ends 0, hid, ?_⟩
  unfold Ended at hended
  split at hended
  · rename_i hretry
    obtain ⟨q, x, ys, hys, hq, hnames, hintact⟩ := hstaged.tip_of_validated hsvc hS hcurrent' hretry
    obtain ⟨-, hsame, -⟩ := hstaged.cleared hsvc hS hys hq hnames hintact hended
    refine ⟨q, hsame.trans hq, ?_⟩
    cases hcurrent' with
    | none hnone => cases hretry
    | damaged hq' names hdamaged => cases hretry
    | validated hq' names hdirectory valid harch hprevious =>
        rw [hq] at hq'
        cases hq'
        rcases hplan.decision with ⟨-, -, hsameId⟩ | ⟨hadvance, -⟩
        · exact hsameId.symm.trans hid
        · simp [isExactRetry, hadvance] at hretry
  · rename_i hretry
    obtain ⟨s, directory, hfit, hs, hgenerations, hcleared⟩ := hended
    have hretry : isExactRetry plan current' = false := by simpa using hretry
    obtain ⟨x, ys, hys, hnames, hintact, hsound⟩ :=
      hstaged.accepted hsvc hS hcurrent' hplan hhashed' hretry hfit hs hgenerations
    obtain ⟨-, hsame, -⟩ := hsound.cleared hsvc hS hys hs hnames hintact hcleared
    exact ⟨_, hsame.trans hs, hid⟩

end Again

/-! ### What holds in every run -/

/-- The pointer `newer.1` was written after `older.1`, with what was stored where they point. -/
def Monotone (newer older : Pointer × Option Directory) : Prop :=
  ∃ d e c c', newer.2 = some d ∧ older.2 = some e ∧ d.checkpoint = some c ∧ e.checkpoint = some c' ∧
    toBlock c' ≤ toBlock c ∧ (toBlock c' = toBlock c →
      c = c' ∧ d.archive = e.archive ∧ newer.1.generationId = older.1.generationId)

/-- The pointer `newer.1` was written right after `older.1`. -/
def Linked (newer older : Pointer × Option Directory) : Prop :=
  newer.1.previousGenerationId = some (some older.1.generationId) ∨
    newer.1.generationId = older.1.generationId ∧
      newer.1.previousGenerationId = older.1.previousGenerationId

/-- The root reads as a generation that is validated, and as this pointer. -/
def Reads (svc : Service) (root : Root) (q : Pointer) (checkpoint : Json) (archive : Option Entry) : Prop :=
  ∃ pointer metadata directory,
    svc.readCurrentGeneration root = .ok (some (.validated pointer checkpoint metadata)) ∧
      pointer.generationId = q.generationId ∧ q.storageId = some pointer.storageId ∧
        root.generations pointer.storageId = some directory ∧ directory.archive = archive

section Chronicles

variable {svc : Service} {S : Set Bytes} {root : Root} {log : List Event} {xs : List (Pointer × Content)}
  {q : Pointer} {x : Content}

theorem pairwise_of_forall₂ {α β : Type} {R : α → β → Prop} {P : β → β → Prop} {Q : α → α → Prop}
    (hQ : ∀ a b y z, R a y → R b z → P y z → Q a b) {l : List α} {m : List β} (h : List.Forall₂ R l m)
    (hm : m.Pairwise P) : l.Pairwise Q := by
  induction h with
  | nil => exact List.Pairwise.nil
  | cons hab h ih =>
      obtain ⟨hhead, htail⟩ := List.pairwise_cons.mp hm
      refine List.pairwise_cons.mpr ⟨fun c hc => ?_, ih htail⟩
      obtain ⟨z, hz, hcz⟩ := exists_of_mem h.flip hc
      exact hQ _ _ _ _ hab hcz (hhead z hz)

theorem Chronicle.monotone (h : Chronicle svc S log xs) : (acceptances log).Pairwise Monotone := by
  refine pairwise_of_forall₂ ?_ h.holds h.follows
  rintro a b y z ⟨ha, d, hd, hy⟩ ⟨hb, e, he, hz⟩ hfollows
  refine ⟨d, e, _, _, hd, he, hy.checkpoint, hz.checkpoint, hfollows.le, fun hsame => ?_⟩
  rcases hfollows with hlater | ⟨hcontent, hid⟩
  · omega
  · rw [ha, hb, hy.archive, hz.archive, hcontent]
    exact ⟨rfl, rfl, hid⟩

theorem Chronicle.head (h : Chronicle svc S log ((q, x) :: xs)) :
    ∃ directory rest, acceptances log = (q, some directory) :: rest ∧ Holds svc S q directory x := by
  obtain ⟨a, rest, ⟨ha, directory, hsome, hholds⟩, -, heq⟩ := List.forall₂_cons_right_iff.mp h.holds
  exact ⟨directory, rest, by rw [heq, ← hsome, ← show a.1 = q from ha], hholds⟩

theorem Chronicle.chain (h : Chronicle svc S log xs) : (acceptances log).IsChain Linked := by
  induction h with
  | nil => exact List.IsChain.nil
  | damaged h ih => exact ih
  | first h holds hprevious hstorage ih =>
      rw [acceptances, List.forall₂_nil_right_iff.mp h.holds]
      exact List.IsChain.singleton _
  | next h holds hprevious hblock hstorage ih =>
      obtain ⟨directory, rest, hhead, -⟩ := h.head
      rw [hhead] at ih
      rw [acceptances, hhead]
      exact List.IsChain.cons_cons (.inl (by rw [holds.names.previous, hprevious])) ih
  | again h holds hid hstorage hmem hreplaced ih =>
      obtain ⟨directory, rest, hhead, hholds⟩ := h.head
      rw [hhead] at ih
      rw [acceptances, hhead]
      exact List.IsChain.cons_cons (.inr ⟨hid, by rw [holds.names.previous, hholds.names.previous]⟩) ih

end Chronicles

section Laws

variable {svc : Service} {S : Set Bytes} {root : Root} {log : List Event} {stage : Directory}
  {current : Option Current} {plan : Plan} {q : Pointer} {x : Content} {n : ℕ}

/-- A publication changes nothing, or is that of a plan. -/
theorem Sound.publish_cases (hsvc : svc.Lawful) (hS : Set.InjOn svc.sha256 S) (h : Sound svc S (root, log))
    (stage : Directory) (rejected : Bytes) :
    (∃ xs e t, Traces (svc.publishGenerationSync rejected) { root with stage := some stage } xs (.error e) t ∧
      ∀ s ∈ t :: xs, root.Same s) ∨
    ∃ current plan xs t, svc.readCurrentGeneration root = .ok current ∧ Current.Reads svc S root current ∧
      svc.decideGeneration current stage = .ok plan ∧
        Traces (svc.publishGenerationSync rejected) { root with stage := some stage } xs
          (.ok ⟨plan.decision, plan.candidate, plan.id, target svc root current plan⟩) t ∧
          ∀ s ∈ t :: xs, Visited svc { root with stage := some stage } current plan stage s := by
  obtain ⟨current, hread, hcurrent⟩ := h.reads hsvc hS
  have hstaged : Current.Reads svc S { root with stage := some stage } current := by
    obtain ⟨current', hread', hcurrent'⟩ := (h.staged stage).reads hsvc hS
    rw [show svc.readCurrentGeneration { root with stage := some stage } = svc.readCurrentGeneration root
      from rfl, hread] at hread'
    rwa [Except.ok.inj hread']
  have hreadStaged : svc.readCurrentGeneration { root with stage := some stage } = .ok current := hread
  by_cases hplan : ∃ plan, Publishable svc { root with stage := some stage } current stage plan
  · obtain ⟨plan, hplan⟩ := hplan
    obtain ⟨xs, t, htraces, hvisited, hended⟩ := publish_published rejected hsvc rfl hreadStaged hstaged hplan
    refine .inr ⟨current, plan, xs, t, hread, hcurrent, hplan.decided, htraces, fun s hs => ?_⟩
    rcases List.mem_cons.mp hs with rfl | hs
    · exact hended.visited
    · exact hvisited s hs
  · obtain ⟨xs, e, t, htraces, hsame⟩ := publish_rejected rejected hsvc rfl hreadStaged hstaged
      (fun plan hpublishable => hplan ⟨plan, hpublishable⟩)
    exact .inl ⟨xs, e, t, htraces, fun s hs => ⟨(hsame s hs).current, (hsame s hs).generations⟩⟩

theorem mem_of_after {m : Service.Publication Published} {s t : Root} {xs : List Root}
    {out : Except GenerationError Published} (h : Traces m s xs out t) (n : ℕ) : (m (s, n)).2.1 ∈ t :: xs := by
  rcases h.after_mem n with ⟨hmem, -⟩ | ⟨hlast, -⟩
  · exact List.mem_cons_of_mem _ hmem
  · rw [show (m (s, n)).2.1 = t from hlast]
    exact List.mem_cons_self ..

/-- What is validated is what was accepted last. -/
theorem Sound.tip (hsvc : svc.Lawful) (hS : Set.InjOn svc.sha256 S) (h : Sound svc S (root, log))
    {pointer : Accepted} {checkpoint : Json} {metadata : Metadata}
    (hread : svc.readCurrentGeneration root = .ok (some (.validated pointer checkpoint metadata))) :
    ∃ q directory x, (acceptances log).head? = some (q, some directory) ∧ root.current = some q ∧
      pointer.generationId = q.generationId ∧ Holds svc S q directory x ∧ checkpoint = x.checkpoint ∧
        Reads svc root q checkpoint directory.archive := by
  obtain ⟨current, hread', hcurrent⟩ := h.reads hsvc hS
  rw [hread] at hread'
  obtain rfl := Except.ok.inj hread'
  obtain ⟨xs, hxs, htip⟩ := h.chronicle
  cases hcurrent with
  | @validated q storageId x found metadata hq names hdirectory valid harchive hprevious =>
      cases xs with
      | nil =>
          rw [show root.current = none from htip] at hq
          cases hq
      | cons head rest =>
          obtain ⟨p, y⟩ := head
          obtain ⟨hsome, -⟩ := htip
          rw [hq] at hsome
          cases hsome
          obtain ⟨directory, rest, hhead, hholds⟩ := hxs.head
          have hcontent := hholds.names.bound.unique hsvc hS names.bound
          rw [hcontent] at hholds
          refine ⟨q, directory, x, by rw [hhead]; rfl, hq, rfl, hholds, rfl, _, metadata, found, hread, rfl,
            names.storage, hdirectory, ?_⟩
          rw [harchive, hholds.archive]

/-- A generation that is intact is read. -/
theorem Sound.reads_tip (hsvc : svc.Lawful) (hS : Set.InjOn svc.sha256 S) (h : Sound svc S (root, log))
    (hhead : log.head? ≠ some .damaged) (hq : root.current = some q) :
    ∃ directory x, (acceptances log).head? = some (q, some directory) ∧ Holds svc S q directory x ∧
      Reads svc root q x.checkpoint directory.archive := by
  obtain ⟨current, hread, hcurrent⟩ := h.reads hsvc hS
  obtain ⟨xs, hxs, htip⟩ := h.chronicle
  cases xs with
  | nil =>
      rw [show root.current = none from htip] at hq
      cases hq
  | cons head rest =>
      obtain ⟨p, y⟩ := head
      obtain ⟨hsome, storageId, hnames, hintact⟩ := htip
      cases hcurrent with
      | none hnone =>
          rw [hq] at hnone
          cases hnone
      | damaged hq' names hdamaged =>
          rw [hsome] at hq'
          cases hq'
          obtain rfl := Option.some.inj (hnames.storage.symm.trans names.storage)
          exact absurd (hintact hhead) hdamaged
      | validated hq' names hdirectory valid harchive hprevious =>
          obtain ⟨p', directory, x, hacceptances, hp', hid, hholds, hsame, hreads⟩ := h.tip hsvc hS hread
          rw [hq] at hp'
          cases hp'
          rw [hsame] at hreads
          exact ⟨directory, x, hacceptances, hholds, hreads⟩

theorem Act.Hashes.hashed {rejected : Bytes} (h : (Act.publish stage rejected n).Hashes svc S root)
    (hread : svc.readCurrentGeneration root = .ok current)
    (hdecide : svc.decideGeneration current stage = .ok plan) : Hashed S root current stage plan := by
  obtain ⟨hstream, hidentity, hrecovery⟩ := h current plan hread hdecide
  exact ⟨hstream, hidentity, hrecovery⟩

/-- What a publication leaves behind is sound. -/
theorem Sound.published (hsvc : svc.Lawful) (hS : Set.InjOn svc.sha256 S) (h : Sound svc S (root, log))
    {rejected : Bytes} (hhashes : (Act.publish stage rejected n).Hashes svc S root) :
    Sound svc S ((svc.publish root stage rejected n).2.1,
      record root (.publish stage rejected n) (svc.publish root stage rejected n).2.1 log) :=
  h.step hsvc hS hhashes (System.withHistory_step.mpr ⟨rfl, rfl⟩)

/-- A damaged generation is replaced by what it held. -/
theorem Sound.replaced (hsvc : svc.Lawful) (hS : Set.InjOn svc.sha256 S) (h : Sound svc S (root, log))
    {pointer : Accepted} {height : ℕ}
    (hread : svc.readCurrentGeneration root = .ok (some (.damaged pointer height))) :
    ∃ q directory, (acceptances log).head? = some (q, some directory) ∧
      ∀ stage rejected n, (Act.publish stage rejected n).Hashes svc S root →
        (svc.publish root stage rejected n).2.1.current ≠ root.current →
          stage.checkpoint = directory.checkpoint ∧ stage.archive = directory.archive ∧
            ∃ q', (svc.publish root stage rejected n).2.1.current = some q' ∧ q'.generationId = q.generationId ∧
              ∃ checkpoint, directory.checkpoint = some checkpoint ∧
                Reads svc (svc.publish root stage rejected n).2.1 q' checkpoint directory.archive := by
  obtain ⟨xs, hxs, htip⟩ := h.chronicle
  obtain ⟨current, hread', hcurrent⟩ := h.reads hsvc hS
  rw [hread] at hread'
  obtain rfl := Except.ok.inj hread'
  cases hcurrent with
  | @damaged q storageId x hq names hdamaged =>
  cases xs with
  | nil =>
      rw [show root.current = none from htip] at hq
      cases hq
  | cons head rest =>
  obtain ⟨p, y⟩ := head
  obtain ⟨hsome, -⟩ := htip
  rw [hq] at hsome
  cases hsome
  obtain ⟨directory, others, hhead, hholds⟩ := hxs.head
  obtain rfl := hholds.names.bound.unique hsvc hS names.bound
  refine ⟨q, directory, by rw [hhead]; rfl, fun stage rejected n hhashes hne => ?_⟩
  rcases h.publish_cases hsvc hS stage rejected with ⟨xs, e, t, htraces, hsame⟩ |
    ⟨current, plan, xs, t, hread', hcurrent, hdecide, htraces, hvisited⟩
  · exact absurd (hsame _ (mem_of_after htraces n)).current hne
  rw [hread] at hread'
  obtain rfl := Except.ok.inj hread'
  have hhashed := hhashes.hashed hread hdecide
  have hplan := decideGeneration_eq_ok hcurrent hdecide
  obtain ⟨archive, harchive, hcheckpoint, hbound⟩ := finished_archive hplan hhashed
  obtain ⟨-, -, hid⟩ := hplan.decision
  have hid : plan.id = q.generationId := hid
  have hcontent := hbound
  rw [hid] at hcontent
  have hsame := hcontent.unique hsvc hS names.bound
  have hstate := hvisited _ (mem_of_after htraces n)
  have hsound := h.published hsvc hS hhashes
  cases hstate with
  | kept hkept => exact absurd hkept.current hne
  | confirmed hretry => cases hretry
  | placed hretry hfit hkept => exact absurd hkept hne
  | @accepted s' found hretry hfit hnew hgenerations hcleared =>
      have hcurrent' : (svc.publish root stage rejected n).2.1.current = s'.current := by
        cases hcleared with
        | same hsame => exact hsame.current
        | moved _ _ _ hsame _ => exact hsame
      have hs := hcurrent'.trans hnew
      rw [record_new hs (fun heq => hne (hs.trans heq.symm))] at hsound
      obtain ⟨directory', x', hacceptances, hholds', hreads⟩ := hsound.reads_tip hsvc hS (by simp) hs
      have hbound' := hholds'.names.bound
      rw [show (pointerOf plan _ (target svc _ _ plan)).generationId = q.generationId from hid] at hbound'
      obtain rfl := hbound'.unique hsvc hS names.bound
      refine ⟨?_, ?_, _, hs, hid, _, hholds.checkpoint, ?_⟩
      · rw [hcheckpoint, hholds.checkpoint, ← hsame]
      · rw [harchive, hholds.archive, ← hsame]
      · rw [hholds.archive, ← hholds'.archive]
        exact hreads

theorem Sound.later (hsvc : svc.Lawful) (hS : Set.InjOn svc.sha256 S) (h : Sound svc S (root, log))
    {pointer : Accepted} {checkpoint candidate : Json} {metadata : Metadata} {digest rejected : Bytes}
    {decision : Decision}
    (hread : svc.readCurrentGeneration root = .ok (some (.validated pointer checkpoint metadata)))
    (hhashes : (Act.publish stage rejected n).Hashes svc S root)
    (hfile : svc.validatePublicationCheckpoint stage.checkpoint = .ok candidate)
    (hleads : stage.archive.any Entry.leadsToDirectory = true)
    (hdigest : svc.archiveTreeDigest stage.archive = .ok digest)
    (hdecision : monotonicCheckpointDecision candidate (some checkpoint) = .ok decision)
    (hadvance : decision.decision = .advance) :
    Offered svc S root stage (svc.generationId candidate digest (some pointer.generationId)) := by
  obtain ⟨current, hread', hcurrent⟩ := h.reads hsvc hS
  rw [hread] at hread'
  obtain rfl := Except.ok.inj hread'
  have hdecide : svc.decideGeneration (some (.validated pointer checkpoint metadata)) stage =
      .ok ⟨decision, candidate, digest, svc.generationId candidate digest (some pointer.generationId)⟩ := by
    unfold Service.decideGeneration
    simp only [hfile, hleads, hdigest, hdecision, hadvance, revertIf, bind, Except.bind, pure, Except.pure,
      Bool.true_eq_false, if_false, reduceCtorEq, false_and]
  exact ⟨_, _, hread, hcurrent, hdecide, rfl, hhashes.hashed hread hdecide⟩

end Laws

/-! ### A run -/

namespace Sample

def first : Json :=
  .object (.ofList [(ascii "manifestBinding", .object .nil),
    (ascii "range", .object (.ofList [(ascii "toBlock", .number ⟨ascii "100", by decide, by decide⟩),
      (ascii "toBlockHash", .string (ascii "0xab"))])),
    (ascii "reconstruction", .object (.ofList [(ascii "complete", .bool true), (ascii "ok", .bool true)])),
    (ascii "schema", .string (ascii "p42-prizes/indexer-checkpoint/v4"))])

def archive : Entry := .directory [(⟨ascii "a", by decide, by decide, by decide⟩, .file [1])]

/-- What is hashed of the archive. -/
def stream : Bytes :=
  ascii "directory" ++ [0, 0] ++ (ascii "file" ++ 0 :: (ascii "a" ++ 0 :: (ascii "1" ++ [0, 1])))

/-- The hexadecimal digits of a digest. -/
def hex (n : ℕ) : Bytes := (List.range 64).map (fun i => hexDigit (n / 16 ^ (63 - i) % 16))

def streamDigest : Bytes := hex 0x1290c387f7ddbf67bee637ae7873a10c5bfa851c37d17f43b170b03535539234
def firstDigest : Bytes := hex 0x8e56091804526d01a380905c765c26539165a4e4f11579c15eb60f61b5702ccf

def firstId : Bytes := ascii "0000000000000100-" ++ firstDigest

/-- The recovery of the first generation. -/
def recovery : Recovery := ⟨firstId, .missing, none, firstId⟩

/-- What the ids of the run are made of. -/
def inputs : List Bytes :=
  [stream, Service.identityText first streamDigest none, Service.recoveryText recovery]

def hashed : Set Bytes := {text | text ∈ inputs}

/-- The SHA-256 digests of what is hashed in the run, found by its length. -/
def digests : List (ℕ × Bytes) :=
  [(21, streamDigest), (285, firstDigest),
    (322, hex 0x9ea69a719977f723c24d29a1733c00db02ffae36f3f5b9d12bbf5aecb33ab76b),
    (157, hex 0x88f0939a99ab3e3b6c2599db8e100d6f3c3de096552b0afa068be0280191be87)]

def service : Service where
  sha256 text := ((digests.find? (fun entry => entry.1 = text.length)).map Prod.snd).getD (hex 0)
  validator checkpoint := first.stringify = checkpoint.stringify
  canonicalJson := Json.stringify

def stage (checkpoint : Json) : Directory := { checkpoint := some checkpoint, archive := some archive }

/-- The first publisher is stopped after two writes; what is published later is lost, and restored. -/
def acts : List Act :=
  [.publish (stage first) (ascii "a") 2, .publish (stage first) (ascii "a") 9, .damage none,
    .publish (stage first) (ascii "a") 9]

theorem injective : Set.InjOn service.sha256 hashed := by
  have hpairs : ∀ x ∈ inputs, ∀ y ∈ inputs, service.sha256 x = service.sha256 y → x = y := by decide +kernel
  exact fun x hx y hy h => hpairs x hx y hy h

instance (text : Bytes) : Decidable (text ∈ hashed) := inferInstanceAs (Decidable (text ∈ inputs))

theorem toOption_eq_some {α ε : Type} {a : α} {x : Except ε α} (h : x = .ok a) : a ∈ x.toOption := by
  rw [h]
  rfl

/-- What is hashed in an action, as it is computed; nothing is put in the place of a lost generation. -/
def Checked (root : Root) : Act → Prop
  | .publish stage _ _ => ∀ current ∈ (service.readCurrentGeneration root).toOption,
      ∀ plan ∈ (service.decideGeneration current stage).toOption,
        (∀ archive ∈ stage.archive, ∀ stream ∈ (visit [] archive).toOption, stream ∈ hashed) ∧
          Service.identityText plan.candidate plan.archiveSha256 (predecessorOf plan current) ∈ hashed ∧
            ∀ recovery ∈ recoveryOf root plan current, Service.recoveryText recovery ∈ hashed
  | .damage directory => directory.isNone = true

instance (root : Root) (act : Act) : Decidable (Checked root act) := by
  cases act <;> unfold Checked <;> infer_instance

theorem Checked.hashes {root : Root} {act : Act} (h : Checked root act) : act.Hashes service hashed root := by
  cases act with
  | publish stage rejected n =>
      intro current plan hread hdecide
      obtain ⟨hstream, hrest⟩ := h current (toOption_eq_some hread) plan (toOption_eq_some hdecide)
      exact ⟨fun archive harchive stream hvisit => hstream archive harchive stream (toOption_eq_some hvisit), hrest⟩
  | damage directory =>
      intro d hd
      rw [Option.isNone_iff_eq_none.mp h] at hd
      cases hd

end Sample

end P42Prizes.Generations
