import Rustodon.Outgoing.Line

/-! @src worker/delivery.rs, mastodon/write_repository.rs | name:The remote server has recorded what the
    database holds | scheme:leases,runs | family:outgoing

    A follow or a block is declared once, and taken back after that; whatever is declared later of the same
    relation comes after both. If deliveries go out in order, no activity is sent after its `Undo`, and when
    nothing is left to be delivered the last word that the remote server has heard is the last one. -/

namespace Rustodon.Outgoing
open Schemes.Runs (Run)
open Schemes.Tables (Table)

variable {s s' : State} {relation : Relation} {id eventId : ℕ} {activity : Activity}

/-- An event, a job or a post says so. -/
def State.Known (s : State) (eventId : ℕ) (activity : Activity) : Prop :=
  (∃ event ∈ s.events, event.id = eventId ∧ event.activity = activity) ∨
    (∃ job ∈ s.jobs.rows, job.eventId = eventId ∧ job.activity = activity) ∨
    ∃ post ∈ s.sent, post.eventId = eventId ∧ post.activity = activity

/-- It waits, it is a job, or it has been sent. -/
def State.Unfinished (s : State) (activity : Activity) : Prop :=
  (∃ event ∈ s.events, event.dispatched = false ∧ event.activity = activity) ∨
    (∃ job ∈ s.jobs.rows, job.activity = activity) ∨ ∃ post ∈ s.sent, post.activity = activity

/-! ### The invariants -/

/-- The order of the events is that of the relationships. -/
structure Told (s : State) : Prop where
  single : s.relationships.follow = none ∨ s.relationships.followRequest = none
  current_lt : ∀ relation id, s.relationships.current relation = some id → id < s.nextId
  known_lt : ∀ eventId activity, s.Known eventId activity → activity.id < s.nextId
  handlers_lt : ∀ handler ∈ s.handlers.rows, handler.activity.id < s.nextId
  undone : ∀ eventId relation id, s.Known eventId (.undo relation id) →
    s.relationships.current relation ≠ some id
  undo_after : ∀ declared undone relation id, s.Known declared (.declare relation id) →
    s.Known undone (.undo relation id) → declared < undone
  current_last : ∀ relation id declared eventId activity, s.relationships.current relation = some id →
    s.Known declared (.declare relation id) → s.Known eventId activity → activity.relation = relation →
    activity ≠ .declare relation id → eventId < declared

/-- What is in force has been declared, and what is not any more has been taken back. -/
structure Accounted (s : State) : Prop where
  declared : ∀ relation id, s.relationships.current relation = some id → s.Unfinished (.declare relation id)
  retracted : ∀ relation id eventId, s.Known eventId (.declare relation id) →
    s.relationships.current relation ≠ some id → s.Unfinished (.undo relation id)
  outdated : ∀ handler ∈ s.handlers.rows, handler.phase = .outdated → ∃ relation id,
    handler.activity = .declare relation id ∧ s.relationships.current relation ≠ some id ∧ id < s.nextId
  posted : ∀ handler ∈ s.handlers.rows, handler.phase = .posted → ∃ post ∈ s.sent, post.activity = handler.activity

/-- What the remote server has recorded has been sent and not been taken back. -/
structure Mirrored (s : State) : Prop where
  current : ∀ relation id, s.relationships.current relation = some id →
    (∃ post ∈ s.sent, post.activity = .declare relation id) → s.recorded.get relation = some id
  sent : ∀ relation id, s.recorded.get relation = some id →
    (∃ post ∈ s.sent, post.activity = .declare relation id) ∧ ∀ post ∈ s.sent, post.activity ≠ .undo relation id

structure Sound (s : State) : Prop where
  lined : Lined s
  told : Told s
  accounted : Accounted s
  mirrored : Mirrored s

theorem current_initial (relation : Relation) : initial.relationships.current relation = none := by
  cases relation <;> rfl

theorem recorded_initial (relation : Relation) : initial.recorded.get relation = none := by
  cases relation <;> rfl

theorem not_known_initial : ¬initial.Known eventId activity := by
  simp [State.Known, initial]

theorem sound_initial : Sound initial where
  lined := lined_initial
  told := by
    refine ⟨.inl rfl, ?_, ?_, ?_, ?_, ?_, ?_⟩
    · simp [current_initial]
    · exact fun _ _ h => absurd h not_known_initial
    · simp [initial]
    · exact fun _ _ _ h => absurd h not_known_initial
    · exact fun _ _ _ _ h => absurd h not_known_initial
    · exact fun _ _ _ _ _ _ h => absurd h not_known_initial
  accounted := by
    refine ⟨?_, ?_, ?_, ?_⟩
    · simp [current_initial]
    · exact fun _ _ _ h => absurd h not_known_initial
    · simp [initial]
    · simp [initial]
  mirrored := ⟨by simp [current_initial], by simp [recorded_initial]⟩

theorem Lined.known_lt (h : Lined s) (hknown : s.Known eventId activity) : eventId < s.nextEventId := by
  rcases hknown with ⟨event, hevent, rfl, -⟩ | ⟨job, hjob, rfl, -⟩ | ⟨post, hpost, rfl, -⟩
  · exact h.events_lt event hevent
  · exact h.jobs_eventId_lt job hjob
  · exact h.sent_lt post hpost

/-! ### Steps that leave the relationships -/

/-- What a step leaves that changes no relation, and sends nothing. -/
structure Frame (s s' : State) : Prop where
  known : ∀ eventId activity, s'.Known eventId activity → s.Known eventId activity
  single : s'.relationships.follow = none ∨ s'.relationships.followRequest = none
  current : ∀ relation, s'.relationships.current relation = s.relationships.current relation
  nextId : s'.nextId = s.nextId
  handlers_lt : ∀ handler ∈ s'.handlers.rows, handler.activity.id < s.nextId
  declared : ∀ relation id, s.relationships.current relation = some id → s.Unfinished (.declare relation id) →
    s'.Unfinished (.declare relation id)
  retracted : ∀ relation id, s.Unfinished (.undo relation id) → s'.Unfinished (.undo relation id)
  outdated : ∀ handler ∈ s'.handlers.rows, handler.phase = .outdated →
    (∃ old ∈ s.handlers.rows, old.phase = .outdated ∧ old.activity = handler.activity) ∨
      ∃ relation id, handler.activity = .declare relation id ∧ s.relationships.current relation ≠ some id ∧ id < s.nextId
  posted : ∀ handler ∈ s'.handlers.rows, handler.phase = .posted →
    ∃ old ∈ s.handlers.rows, old.phase = .posted ∧ old.activity = handler.activity
  sent : s'.sent = s.sent
  recorded : s'.recorded = s.recorded

theorem Sound.frame (h : Sound s) (hlined : Lined s') (hf : Frame s s') : Sound s' where
  lined := hlined
  told := by
    refine ⟨hf.single, ?_, ?_, hf.nextId ▸ hf.handlers_lt, ?_, ?_, ?_⟩
    · simp only [hf.current, hf.nextId]
      exact h.told.current_lt
    · intro eventId activity hknown
      rw [hf.nextId]
      exact h.told.known_lt eventId activity (hf.known _ _ hknown)
    · intro eventId relation id hknown
      rw [hf.current]
      exact h.told.undone eventId relation id (hf.known _ _ hknown)
    · exact fun declared undone relation id hdeclared hundone =>
        h.told.undo_after declared undone relation id (hf.known _ _ hdeclared) (hf.known _ _ hundone)
    · intro relation id declared eventId activity hcurrent hdeclared hknown
      rw [hf.current] at hcurrent
      exact h.told.current_last relation id declared eventId activity hcurrent (hf.known _ _ hdeclared)
        (hf.known _ _ hknown)
  accounted := by
    refine ⟨?_, ?_, ?_, ?_⟩
    · intro relation id hcurrent
      rw [hf.current] at hcurrent
      exact hf.declared relation id hcurrent (h.accounted.declared relation id hcurrent)
    · intro relation id eventId hknown hcurrent
      rw [hf.current] at hcurrent
      exact hf.retracted relation id (h.accounted.retracted relation id eventId (hf.known _ _ hknown) hcurrent)
    · intro handler hhandler hphase
      simp only [hf.current, hf.nextId]
      rcases hf.outdated handler hhandler hphase with ⟨old, hold, hphase, hactivity⟩ | hnew
      · rw [← hactivity]
        exact h.accounted.outdated old hold hphase
      · exact hnew
    · intro handler hhandler hphase
      obtain ⟨old, hold, hphase, hactivity⟩ := hf.posted handler hhandler hphase
      rw [hf.sent, ← hactivity]
      exact h.accounted.posted old hold hphase
  mirrored := by
    refine ⟨?_, ?_⟩
    · simp only [hf.current, hf.sent, hf.recorded]
      exact h.mirrored.current
    · simp only [hf.sent, hf.recorded]
      exact h.mirrored.sent

theorem Shrinks.known (h : Shrinks s s') : ∀ eventId activity, s'.Known eventId activity → s.Known eventId activity := by
  rintro eventId activity (⟨event, hevent, hid, hactivity⟩ | ⟨job', hjob', heventId', hactivity'⟩ | hpost)
  · exact .inl ⟨event, h.events.subset hevent, hid, hactivity⟩
  · obtain ⟨job, hjob, -, heventId, hactivity, -⟩ := h.jobs job' hjob'
    exact .inr (.inl ⟨job, hjob, heventId.symm.trans heventId', hactivity.symm.trans hactivity'⟩)
  · rw [h.sent] at hpost
    exact .inr (.inr hpost)

/-- A job that is kept, or changed without its activity, is unfinished still. -/
theorem State.Unfinished.jobs (h : s.Unfinished activity) (hevents : s'.events = s.events) (hsent : s'.sent = s.sent)
    (hjobs : ∀ job ∈ s.jobs.rows, job.activity = activity → ∃ job' ∈ s'.jobs.rows, job'.activity = activity) :
    s'.Unfinished activity := by
  rcases h with hevent | ⟨job, hjob, hactivity⟩ | hpost
  · rw [← hevents] at hevent
    exact .inl hevent
  · exact .inr (.inl (hjobs job hjob hactivity))
  · rw [← hsent] at hpost
    exact .inr (.inr hpost)

theorem frame_of_shrinks (h : Sound s) (hs : Shrinks s s') (hevents : s'.events = s.events)
    (hrelationships : s'.relationships = s.relationships) (hnextId : s'.nextId = s.nextId)
    (hrecorded : s'.recorded = s.recorded)
    (hdeclared : ∀ relation id, s.relationships.current relation = some id → ∀ job ∈ s.jobs.rows,
      job.activity = .declare relation id → s'.Unfinished (.declare relation id))
    (hretracted : ∀ relation id, ∀ job ∈ s.jobs.rows, job.activity = .undo relation id →
      s'.Unfinished (.undo relation id))
    (houtdated : ∀ handler ∈ s'.handlers.rows, handler.phase = .outdated →
      (∃ old ∈ s.handlers.rows, old.phase = .outdated ∧ old.activity = handler.activity) ∨
        ∃ relation id, handler.activity = .declare relation id ∧ s.relationships.current relation ≠ some id ∧
          id < s.nextId)
    (hposted : ∀ handler ∈ s'.handlers.rows, handler.phase = .posted →
      ∃ old ∈ s.handlers.rows, old.phase = .posted ∧ old.activity = handler.activity) : Frame s s' where
  known := hs.known
  single := by
    rw [hrelationships]
    exact h.told.single
  current relation := by rw [hrelationships]
  nextId := hnextId
  handlers_lt := by
    intro handler' hhandler'
    obtain ⟨handler, hhandler, -, -, hactivity⟩ := hs.handlers handler' hhandler'
    rw [hactivity]
    exact h.told.handlers_lt handler hhandler
  declared := by
    rintro relation id hcurrent (hevent | ⟨job, hjob, hactivity⟩ | hpost)
    · exact .inl (hevents ▸ hevent)
    · exact hdeclared relation id hcurrent job hjob hactivity
    · exact .inr (.inr (hs.sent ▸ hpost))
  retracted := by
    rintro relation id (hevent | ⟨job, hjob, hactivity⟩ | hpost)
    · exact .inl (hevents ▸ hevent)
    · exact hretracted relation id job hjob hactivity
    · exact .inr (.inr (hs.sent ▸ hpost))
  outdated := houtdated
  posted := hposted
  sent := hs.sent
  recorded := hrecorded

/-! #### Workers -/

theorem same_outdated : ∀ handler ∈ s.handlers.rows, handler.phase = .outdated →
    (∃ old ∈ s.handlers.rows, old.phase = .outdated ∧ old.activity = handler.activity) ∨
      ∃ relation id, handler.activity = .declare relation id ∧ s.relationships.current relation ≠ some id ∧
        id < s.nextId :=
  fun handler hhandler hphase => .inl ⟨handler, hhandler, hphase, rfl⟩

theorem same_posted : ∀ handler ∈ s.handlers.rows, handler.phase = .posted →
    ∃ old ∈ s.handlers.rows, old.phase = .posted ∧ old.activity = handler.activity :=
  fun handler hhandler hphase => ⟨handler, hhandler, hphase, rfl⟩

theorem Sound.tick (h : Sound s) (elapsed : ℕ) : Sound { s with now := s.now + elapsed } := by
  have hs : Shrinks s { s with now := s.now + elapsed } :=
    ⟨List.Sublist.refl _, rfl, job_from_refl _, rfl, handler_from_refl _, rfl⟩
  refine h.frame (h.lined.shrink hs) (frame_of_shrinks h hs rfl rfl rfl rfl ?_ ?_ same_outdated same_posted)
  · exact fun _ _ _ job hjob hactivity => .inr (.inl ⟨job, hjob, hactivity⟩)
  · exact fun _ _ job hjob hactivity => .inr (.inl ⟨job, hjob, hactivity⟩)

theorem Sound.stop (h : Sound s) (leaseOwner : ℕ) : Sound (s.stop leaseOwner) := by
  refine h.frame (h.lined.shrink (shrinks_stop leaseOwner))
    (frame_of_shrinks h (shrinks_stop leaseOwner) rfl rfl rfl rfl ?_ ?_ ?_ ?_)
  · exact fun _ _ _ job hjob hactivity => .inr (.inl ⟨job, hjob, hactivity⟩)
  · exact fun _ _ job hjob hactivity => .inr (.inl ⟨job, hjob, hactivity⟩)
  · exact fun handler hhandler => same_outdated handler (Table.mem_erase.mp hhandler).1
  · exact fun handler hhandler => same_posted handler (Table.mem_erase.mp hhandler).1

/-- A statement of a worker keeps every job, but the one it completes. -/
theorem unfinished_fence {handler : Handler} {ending : Ending} {job : Job} (hjob : job ∈ s.jobs.rows)
    (h : ∀ now owner, ending.effect now owner job = none → job.id = handler.jobId →
      (s.fence handler ending).Unfinished job.activity) :
    (s.fence handler ending).Unfinished job.activity := by
  cases hfenced : handler.fenced s.now (ending.effect s.now handler.leaseOwner) job with
  | some job' =>
    have hmem : job' ∈ (s.fence handler ending).jobs.rows := List.mem_filterMap.mpr ⟨job, hjob, hfenced⟩
    refine .inr (.inl ⟨job', hmem, ?_⟩)
    rw [Handler.fenced] at hfenced
    split at hfenced
    · cases ending with
      | completed => cases hfenced
      | renewed => rw [← Option.some.inj hfenced]
      | retried => rw [← Option.some.inj hfenced]
      | deadLettered => rw [← Option.some.inj hfenced]
    · rw [Option.some.inj hfenced]
  | none =>
    rw [Handler.fenced] at hfenced
    split at hfenced
    · rename_i hholds
      exact h _ _ hfenced hholds.1
    · cases hfenced

theorem Sound.fence (h : Sound s) {handler : Handler} {ending : Ending} (hhandler : handler ∈ s.handlers.rows)
    (hdone : ∀ now owner job, ending.effect now owner job = none →
      handler.phase = .outdated ∨ handler.phase = .posted) : Sound (s.fence handler ending) := by
  refine h.frame (h.lined.shrink (shrinks_fence handler ending))
    (frame_of_shrinks h (shrinks_fence handler ending) rfl rfl rfl rfl ?_ ?_ same_outdated same_posted)
  · intro relation id hcurrent job hjob hactivity
    rw [← hactivity]
    refine unfinished_fence hjob fun now owner hnone hid => ?_
    have hsame := (h.lined.handlers_job handler hhandler job hjob hid).2
    rcases hdone now owner job hnone with hphase | hphase
    · obtain ⟨relation', id', hdeclared, hnot, -⟩ := h.accounted.outdated handler hhandler hphase
      rw [hactivity, hdeclared] at hsame
      cases hsame
      exact absurd hcurrent hnot
    · rw [hsame]
      exact .inr (.inr (h.accounted.posted handler hhandler hphase))
  · intro relation id job hjob hactivity
    rw [← hactivity]
    refine unfinished_fence hjob fun now owner hnone hid => ?_
    have hsame := (h.lined.handlers_job handler hhandler job hjob hid).2
    rcases hdone now owner job hnone with hphase | hphase
    · obtain ⟨relation', id', hdeclared, -⟩ := h.accounted.outdated handler hhandler hphase
      rw [hactivity, hdeclared] at hsame
      cases hsame
    · rw [hsame]
      exact .inr (.inr (h.accounted.posted handler hhandler hphase))

theorem Sound.complete {leaseOwner : ℕ} (h : Sound s) (hstep : s.complete leaseOwner = some s') : Sound s' := by
  obtain ⟨handler, hhandler, hstep⟩ := Option.bind_eq_some_iff.mp hstep
  obtain ⟨hget, hphase⟩ := Option.filter_eq_some_iff.mp hhandler
  obtain rfl := Option.some.inj hstep
  have hdone : handler.phase = .outdated ∨ handler.phase = .posted := by simpa using hphase
  exact (h.fence (Table.mem_of_get hget) fun _ _ _ _ => hdone).stop leaseOwner

theorem Sound.fail {leaseOwner : ℕ} {last : Bool} (h : Sound s) (hstep : s.fail leaseOwner last = some s') : Sound s' := by
  obtain ⟨handler, hget, hstep⟩ := Option.bind_eq_some_iff.mp hstep
  obtain rfl := Option.some.inj hstep
  refine (h.fence (Table.mem_of_get hget) fun _ _ _ hnone => ?_).stop leaseOwner
  cases last <;> cases hnone

theorem Sound.renew {leaseOwner leaseMilliseconds : ℕ} (h : Sound s)
    (hstep : s.renew leaseOwner leaseMilliseconds = some s') : Sound s' := by
  obtain ⟨handler, hget, hstep⟩ := Option.bind_eq_some_iff.mp hstep
  split at hstep
  · obtain rfl := Option.some.inj hstep
    exact h.fence (Table.mem_of_get hget) fun _ _ _ hnone => by cases hnone
  · obtain rfl := Option.some.inj hstep
    exact h.stop leaseOwner

/-- A delivery is current if its activity is in force. -/
theorem deliveryIsCurrent_declare (h : s.relationships.follow = none ∨ s.relationships.followRequest = none) :
    s.relationships.deliveryIsCurrent (.declare relation id) = true ↔ s.relationships.current relation = some id := by
  cases relation with
  | block => simp [Relationships.deliveryIsCurrent, Relationships.current]
  | follow => rcases h with h | h <;> simp [Relationships.deliveryIsCurrent, Relationships.current, h]

theorem Sound.check {leaseOwner : ℕ} (h : Sound s) (hstep : s.check leaseOwner = some s') : Sound s' := by
  obtain ⟨handler, hhandler, hstep⟩ := Option.bind_eq_some_iff.mp hstep
  obtain ⟨hget, -⟩ := Option.filter_eq_some_iff.mp hhandler
  obtain rfl := Option.some.inj hstep
  generalize hphase : (if s.relationships.deliveryIsCurrent handler.activity then Phase.current else .outdated) = phase
  have hs := shrinks_setPhase (s := s) leaseOwner phase
  have hrow : ∀ row ∈ (s.setPhase leaseOwner phase).handlers.rows,
      row ∈ s.handlers.rows ∨ row.phase = phase ∧ row.activity = handler.activity := by
    intro row hrow
    obtain ⟨old, hold, rfl⟩ := List.mem_map.mp hrow
    split
    · rename_i howner
      have hsame := Table.mem_iff_get.mp hold
      rw [howner, hget] at hsame
      exact .inr ⟨rfl, by rw [← Option.some.inj hsame]; rfl⟩
    · exact .inl hold
  refine h.frame (h.lined.shrink hs) (frame_of_shrinks h hs rfl rfl rfl rfl ?_ ?_ ?_ ?_)
  · exact fun _ _ _ job hjob hactivity => .inr (.inl ⟨job, hjob, hactivity⟩)
  · exact fun _ _ job hjob hactivity => .inr (.inl ⟨job, hjob, hactivity⟩)
  · intro row hmem houtdated
    rcases hrow row hmem with hold | ⟨hrphase, hactivity⟩
    · exact same_outdated row hold houtdated
    · rw [houtdated] at hrphase
      rw [← hrphase] at hphase
      have hnot : s.relationships.deliveryIsCurrent handler.activity = false := by
        by_contra hcurrent
        rw [Bool.not_eq_false] at hcurrent
        rw [if_pos hcurrent] at hphase
        cases hphase
      cases hdeclared : handler.activity with
      | undo =>
        rw [hdeclared] at hnot
        cases hnot
      | declare relation id =>
        refine .inr ⟨relation, id, hactivity.trans hdeclared, fun hcurrent => ?_, ?_⟩
        · rw [hdeclared, (deliveryIsCurrent_declare h.told.single).mpr hcurrent] at hnot
          cases hnot
        · have hlt := h.told.handlers_lt handler (Table.mem_of_get hget)
          rwa [hdeclared] at hlt
  · intro row hmem hposted
    rcases hrow row hmem with hold | ⟨hrphase, -⟩
    · exact same_posted row hold hposted
    · rw [hposted, ← hphase] at hrphase
      split at hrphase <;> cases hrphase

theorem Sound.claim {leaseOwner jobId leaseMilliseconds : ℕ} (h : Sound s)
    (hstep : s.claim leaseOwner jobId leaseMilliseconds = some s') : Sound s' := by
  have hlined := h.lined.claim hstep
  obtain ⟨claimed, hget, -, hinsert, heq⟩ := claim_eq_some hstep
  have hhandlers := (Table.get_of_insert hinsert).2
  have hmem := Table.mem_of_get hget
  have hkept : ∀ job ∈ s.jobs.rows, ∃ job' ∈ s'.jobs.rows, job'.activity = job.activity := by
    intro job hjob
    rw [heq]
    refine ⟨_, List.mem_map_of_mem hjob, ?_⟩
    split <;> rfl
  have hunfinished (activity : Activity) (hunfinished : s.Unfinished activity) : s'.Unfinished activity :=
    hunfinished.jobs (by rw [heq]) (by rw [heq]) fun job hjob hactivity => hactivity ▸ hkept job hjob
  have hphase : ∀ handler ∈ s'.handlers.rows, handler ∈ s.handlers.rows ∨
      handler.phase = .claimed ∧ handler.activity = claimed.activity := by
    rw [hhandlers]
    intro handler hhandler
    rcases List.mem_append.mp hhandler with hold | hnew
    · exact .inl hold
    · obtain rfl := List.mem_singleton.mp hnew
      exact .inr ⟨rfl, rfl⟩
  refine h.frame hlined ⟨?_, ?_, ?_, ?_, ?_, fun _ _ _ => hunfinished _, fun _ _ => hunfinished _, ?_, ?_, ?_, ?_⟩
  · rw [heq]
    rintro eventId activity (hevent | ⟨job', hjob', heventId, hactivity⟩ | hpost)
    · exact .inl hevent
    · obtain ⟨job, hjob, rfl⟩ := List.mem_map.mp hjob'
      refine .inr (.inl ⟨job, hjob, ?_⟩)
      split at heventId <;> split at hactivity <;> exact ⟨heventId, hactivity⟩
    · exact .inr (.inr hpost)
  · rw [heq]
    exact h.told.single
  · rw [heq]
    exact fun _ => rfl
  · rw [heq]
  · intro handler hhandler
    rcases hphase handler hhandler with hold | ⟨-, hactivity⟩
    · exact h.told.handlers_lt handler hold
    · rw [hactivity]
      exact h.told.known_lt claimed.eventId claimed.activity (.inr (.inl ⟨claimed, hmem, rfl, rfl⟩))
  · intro handler hhandler houtdated
    rcases hphase handler hhandler with hold | ⟨hclaimed, -⟩
    · exact same_outdated handler hold houtdated
    · rw [houtdated] at hclaimed
      cases hclaimed
  · intro handler hhandler hposted
    rcases hphase handler hhandler with hold | ⟨hclaimed, -⟩
    · exact same_posted handler hold hposted
    · rw [hposted] at hclaimed
      cases hclaimed
  · rw [heq]
  · rw [heq]

theorem Sound.dispatchOutbox (h : Sound s) (hstep : s.dispatchOutbox = some s') : Sound s' := by
  have hlined := h.lined.dispatchOutbox hstep
  obtain ⟨before, event, after, hevents, -, -, hinsert, heq⟩ := dispatchOutbox_eq_some hstep
  have hrows := (Table.get_of_insert hinsert).2
  have hmem : event ∈ s.events := by
    rw [hevents]
    exact List.mem_append_right _ List.mem_cons_self
  have hsame : ∀ other ∈ s.events, other.id = event.id → other = event := fun other hother =>
    List.inj_on_of_nodup_map (List.pairwise_map.mpr (h.lined.events_sorted.imp Nat.ne_of_lt)) hother hmem
  have hunfinished (activity : Activity) (hunfinished : s.Unfinished activity) : s'.Unfinished activity := by
    rw [heq]
    rcases hunfinished with ⟨other, hother, hwaiting, hactivity⟩ | ⟨job, hjob, hactivity⟩ | hpost
    · by_cases hid : other.id = event.id
      · obtain rfl := hsame other hother hid
        refine .inr (.inl ⟨⟨s.nextJobId, other.id, other.activity, 0, none, false⟩, ?_, hactivity⟩)
        rw [hrows]
        exact List.mem_append_right _ (List.mem_singleton_self _)
      · exact .inl ⟨other, List.mem_map.mpr ⟨other, hother, if_neg hid⟩, hwaiting, hactivity⟩
    · refine .inr (.inl ⟨job, ?_, hactivity⟩)
      rw [hrows]
      exact List.mem_append_left _ hjob
    · exact .inr (.inr hpost)
  refine h.frame hlined ⟨?_, ?_, ?_, ?_, ?_, fun _ _ _ => hunfinished _, fun _ _ => hunfinished _, ?_, ?_, ?_, ?_⟩
  · rw [heq]
    rintro eventId activity (⟨other', hother', hid, hactivity⟩ | ⟨job, hjob, heventId, hactivity⟩ | hpost)
    · obtain ⟨other, hother, rfl⟩ := List.mem_map.mp hother'
      refine .inl ⟨other, hother, ?_⟩
      split at hid <;> split at hactivity <;> exact ⟨hid, hactivity⟩
    · rw [hrows] at hjob
      rcases List.mem_append.mp hjob with hjob | hnew
      · exact .inr (.inl ⟨job, hjob, heventId, hactivity⟩)
      · obtain rfl := List.mem_singleton.mp hnew
        exact .inl ⟨event, hmem, heventId, hactivity⟩
    · exact .inr (.inr hpost)
  · rw [heq]
    exact h.told.single
  · rw [heq]
    exact fun _ => rfl
  · rw [heq]
  · rw [heq]
    exact h.told.handlers_lt
  · rw [heq]
    exact same_outdated
  · rw [heq]
    exact same_posted
  · rw [heq]
  · rw [heq]

theorem Sound.acceptFollow (h : Sound s) (hstep : s.acceptFollow = some s') : Sound s' := by
  rw [State.acceptFollow] at hstep
  split at hstep
  · rename_i id hrequest
    obtain rfl := Option.some.inj hstep
    have hfollow : s.relationships.follow = none := by
      rcases h.told.single with hfollow | hnone
      · exact hfollow
      · rw [hrequest] at hnone
        cases hnone
    have hs : Shrinks s { s with relationships := { s.relationships with
        followRequest := none
        follow := s.relationships.follow.or (some id) } } :=
      ⟨List.Sublist.refl _, rfl, job_from_refl _, rfl, handler_from_refl _, rfl⟩
    refine h.frame (h.lined.shrink hs) ⟨hs.known, .inr rfl, ?_, rfl, h.told.handlers_lt, fun _ _ _ hunfinished => hunfinished,
      fun _ _ hunfinished => hunfinished, same_outdated (s := s), same_posted (s := s), rfl, rfl⟩
    intro relation
    cases relation with
    | block => rfl
    | follow => simp [Relationships.current, hfollow, hrequest]
  · cases hstep

/-! ### Steps that change a relationship -/

section Changes

variable {relationships : Relationships} {kept : List ℕ}

theorem known_recordOutboxOnce {recorded : Activity} (h : (s.recordOutboxOnce recorded).Known eventId activity) :
    s.Known eventId activity ∨ eventId = s.nextEventId ∧ activity = recorded := by
  rw [State.recordOutboxOnce] at h
  split at h
  · exact .inl h
  · rcases h with ⟨event, hevent, hid, hactivity⟩ | hrest
    · rcases List.mem_append.mp hevent with hevent | hnew
      · exact .inl (.inl ⟨event, hevent, hid, hactivity⟩)
      · obtain rfl := List.mem_singleton.mp hnew
        exact .inr ⟨hid.symm, hactivity.symm⟩
    · exact .inl (.inr hrest)

theorem unfinished_recordOutboxOnce (recorded : Activity) (h : s.Unfinished activity) :
    (s.recordOutboxOnce recorded).Unfinished activity := by
  rw [State.recordOutboxOnce]
  split
  · exact h
  · rcases h with ⟨event, hevent, hrest⟩ | hrest
    · exact .inl ⟨event, List.mem_append_left _ hevent, hrest⟩
    · exact .inr hrest

/-- What has not been said yet waits to be delivered. -/
theorem unfinished_recorded (hnew : ∀ eventId, ¬s.Known eventId activity) :
    (s.recordOutboxOnce activity).Unfinished activity := by
  rw [State.recordOutboxOnce]
  split
  · rename_i hany
    obtain ⟨event, hevent, hactivity⟩ := List.any_eq_true.mp hany
    exact absurd (.inl ⟨event, hevent, rfl, by simpa using hactivity⟩) (hnew event.id)
  · exact .inl ⟨_, List.mem_append_right _ (List.mem_singleton_self _), rfl, rfl⟩

@[simp] theorem recordOutboxOnce_same (recorded : Activity) :
    (s.recordOutboxOnce recorded).relationships = s.relationships ∧ (s.recordOutboxOnce recorded).nextId = s.nextId ∧
      (s.recordOutboxOnce recorded).handlers = s.handlers ∧ (s.recordOutboxOnce recorded).sent = s.sent ∧
      (s.recordOutboxOnce recorded).recorded = s.recorded := by
  rw [State.recordOutboxOnce]
  split <;> exact ⟨rfl, rfl, rfl, rfl, rfl⟩

/-- A cancellation leaves all other activities. -/
theorem unfinished_cancel {cancelled : Activity} (hne : activity ≠ cancelled) (h : s.Unfinished activity) :
    (s.cancelActivitypubDelivery cancelled kept).Unfinished activity := by
  rcases h with ⟨event, hevent, hwaiting, rfl⟩ | ⟨job, hjob, rfl⟩ | hpost
  · exact .inl ⟨event, List.mem_filter.mpr ⟨hevent, by simp [hne]⟩, hwaiting, rfl⟩
  · exact .inr (.inl ⟨job, List.mem_filterMap.mpr ⟨job, hjob, by simp [isCancelled, hne]⟩, rfl⟩)
  · exact .inr (.inr hpost)

/-- A change of one relation. -/
structure Changes (s : State) (relation : Relation) (value : Option ℕ) (relationships : Relationships) : Prop where
  single : relationships.follow = none ∨ relationships.followRequest = none
  here : relationships.current relation = value
  elsewhere : ∀ other, other ≠ relation → relationships.current other = s.relationships.current other

theorem Lined.withRelationships (h : Lined s) (nextId : ℕ) : Lined { s with relationships, nextId } :=
  h.shrink ⟨List.Sublist.refl _, rfl, job_from_refl _, rfl, handler_from_refl _, rfl⟩

/-- A follow or a block is made. -/
theorem Sound.declare {f : ℕ → Relationships} (h : Sound s) (hnone : s.relationships.current relation = none)
    (hchanges : Changes s relation (some s.nextId) (f s.nextId)) : Sound (s.declare relation f) := by
  have hfresh : ∀ eventId, ¬s.Known eventId (.declare relation s.nextId) := fun eventId hknown =>
    lt_irrefl _ (h.told.known_lt eventId _ hknown)
  have hknown : ∀ eventId activity, (s.declare relation f).Known eventId activity →
      s.Known eventId activity ∨ eventId = s.nextEventId ∧ activity = .declare relation s.nextId :=
    fun eventId activity => known_recordOutboxOnce
  have hunfinished : ∀ activity, s.Unfinished activity → (s.declare relation f).Unfinished activity :=
    fun activity hold => unfinished_recordOutboxOnce _ hold
  have hsame : (s.declare relation f).relationships = f s.nextId ∧ (s.declare relation f).nextId = s.nextId + 1 ∧
      (s.declare relation f).handlers = s.handlers ∧ (s.declare relation f).sent = s.sent ∧
      (s.declare relation f).recorded = s.recorded := recordOutboxOnce_same _
  obtain ⟨hrelationships, hnextId, hhandlers, hsent, hrecorded⟩ := hsame
  have hcurrent : ∀ other id, (f s.nextId).current other = some id →
      other = relation ∧ id = s.nextId ∨ other ≠ relation ∧ s.relationships.current other = some id := by
    intro other id hother
    by_cases hsame : other = relation
    · rw [hsame, hchanges.here] at hother
      exact .inl ⟨hsame, (Option.some.inj hother).symm⟩
    · rw [hchanges.elsewhere other hsame] at hother
      exact .inr ⟨hsame, hother⟩
  refine ⟨(h.lined.withRelationships _).recordOutboxOnce _, ?_, ?_, ?_⟩
  · refine ⟨hrelationships ▸ hchanges.single, ?_, ?_, ?_, ?_, ?_, ?_⟩
    · rw [hrelationships, hnextId]
      intro other id hother
      rcases hcurrent other id hother with ⟨-, rfl⟩ | ⟨-, hold⟩
      · exact Nat.lt_succ_self _
      · exact Nat.lt_succ_of_lt (h.told.current_lt other id hold)
    · rw [hnextId]
      intro eventId activity hact
      rcases hknown eventId activity hact with hold | ⟨-, rfl⟩
      · exact Nat.lt_succ_of_lt (h.told.known_lt eventId activity hold)
      · exact Nat.lt_succ_self _
    · rw [hhandlers, hnextId]
      exact fun handler hhandler => Nat.lt_succ_of_lt (h.told.handlers_lt handler hhandler)
    · rw [hrelationships]
      intro eventId other id hact hother
      rcases hknown _ _ hact with hold | ⟨-, heq⟩
      · rcases hcurrent other id hother with ⟨-, rfl⟩ | ⟨-, hold'⟩
        · exact lt_irrefl _ (h.told.known_lt eventId _ hold)
        · exact h.told.undone eventId other id hold hold'
      · cases heq
    · intro declared undone other id hdeclared hundone
      rcases hknown _ _ hundone with hundone | ⟨-, heq⟩
      · rcases hknown _ _ hdeclared with hdeclared | ⟨-, heq⟩
        · exact h.told.undo_after declared undone other id hdeclared hundone
        · cases heq
          exact absurd (h.told.known_lt undone _ hundone) (lt_irrefl _)
      · cases heq
    · rw [hrelationships]
      intro other id declared eventId activity hother hdeclared hact hrelation hne
      rcases hcurrent other id hother with ⟨rfl, rfl⟩ | ⟨hdifferent, hold⟩
      · rcases hknown _ _ hdeclared with hdeclared | ⟨rfl, -⟩
        · exact absurd hdeclared (hfresh declared)
        · rcases hknown _ _ hact with hact | ⟨-, heq⟩
          · exact h.lined.known_lt hact
          · exact absurd heq hne
      · have hact : s.Known eventId activity := by
          rcases hknown _ _ hact with hact | ⟨-, rfl⟩
          · exact hact
          · exact absurd hrelation.symm hdifferent
        have hdeclared : s.Known declared (.declare other id) := by
          rcases hknown _ _ hdeclared with hdeclared | ⟨-, heq⟩
          · exact hdeclared
          · cases heq
            exact absurd rfl hdifferent
        exact h.told.current_last other id declared eventId activity hold hdeclared hact hrelation hne
  · refine ⟨?_, ?_, ?_, ?_⟩
    · rw [hrelationships]
      intro other id hother
      rcases hcurrent other id hother with ⟨rfl, rfl⟩ | ⟨-, hold⟩
      · exact unfinished_recorded hfresh
      · exact hunfinished _ (h.accounted.declared other id hold)
    · rw [hrelationships]
      intro other id eventId hact hother
      rcases hknown _ _ hact with hact | ⟨-, heq⟩
      · refine hunfinished _ (h.accounted.retracted other id eventId hact fun hold => hother ?_)
        by_cases hsame : other = relation
        · rw [hsame, hnone] at hold
          cases hold
        · rw [hchanges.elsewhere other hsame, hold]
      · cases heq
        exact absurd hchanges.here hother
    · rw [hhandlers, hrelationships, hnextId]
      intro handler hhandler hphase
      obtain ⟨other, id, hactivity, hnot, hlt⟩ := h.accounted.outdated handler hhandler hphase
      refine ⟨other, id, hactivity, fun hother => ?_, Nat.lt_succ_of_lt hlt⟩
      rcases hcurrent other id hother with ⟨-, rfl⟩ | ⟨-, hold⟩
      · exact lt_irrefl _ hlt
      · exact hnot hold
    · rw [hhandlers, hsent]
      exact h.accounted.posted
  · refine ⟨?_, ?_⟩
    · rw [hrelationships, hsent, hrecorded]
      rintro other id hother ⟨post, hpost, hactivity⟩
      rcases hcurrent other id hother with ⟨rfl, rfl⟩ | ⟨-, hold⟩
      · exact absurd (.inr (.inr ⟨post, hpost, rfl, hactivity⟩)) (hfresh post.eventId)
      · exact h.mirrored.current other id hold ⟨post, hpost, hactivity⟩
    · rw [hsent, hrecorded]
      exact h.mirrored.sent

/-- A follow or a block is taken back. -/
theorem Sound.retract (h : Sound s) (hsome : s.relationships.current relation = some id)
    (hchanges : Changes s relation none relationships) : Sound (s.retract relation id relationships kept) := by
  have hfresh : ∀ eventId, ¬s.Known eventId (.undo relation id) := fun eventId hknown =>
    h.told.undone eventId relation id hknown hsome
  have hshrinks := shrinks_cancel (s := { s with relationships }) (.declare relation id) kept
  have hknown : ∀ eventId activity, (s.retract relation id relationships kept).Known eventId activity →
      s.Known eventId activity ∨ eventId = s.nextEventId ∧ activity = .undo relation id := by
    intro eventId activity hact
    rcases known_recordOutboxOnce hact with hact | hnew
    · exact .inl (hshrinks.known eventId activity hact)
    · exact .inr hnew
  have hunfinished : ∀ activity, activity ≠ .declare relation id → s.Unfinished activity →
      (s.retract relation id relationships kept).Unfinished activity :=
    fun activity hne hold => unfinished_recordOutboxOnce _ (unfinished_cancel hne hold)
  have hsame : (s.retract relation id relationships kept).relationships = relationships ∧
      (s.retract relation id relationships kept).nextId = s.nextId ∧
      (s.retract relation id relationships kept).handlers = s.handlers ∧
      (s.retract relation id relationships kept).sent = s.sent ∧
      (s.retract relation id relationships kept).recorded = s.recorded := recordOutboxOnce_same _
  obtain ⟨hrelationships, hnextId, hhandlers, hsent, hrecorded⟩ := hsame
  have hcurrent : ∀ other id, relationships.current other = some id →
      other ≠ relation ∧ s.relationships.current other = some id := by
    intro other id hother
    have hdifferent : other ≠ relation := by
      rintro rfl
      rw [hchanges.here] at hother
      cases hother
    rw [hchanges.elsewhere other hdifferent] at hother
    exact ⟨hdifferent, hother⟩
  refine ⟨((h.lined.withRelationships _).shrink hshrinks).recordOutboxOnce _, ?_, ?_, ?_⟩
  · refine ⟨?_, ?_, ?_, ?_, ?_, ?_, ?_⟩
    · rw [hrelationships]
      exact hchanges.single
    · rw [hrelationships, hnextId]
      exact fun other id hother => h.told.current_lt other id (hcurrent other id hother).2
    · rw [hnextId]
      intro eventId activity hact
      rcases hknown eventId activity hact with hold | ⟨-, rfl⟩
      · exact h.told.known_lt eventId activity hold
      · exact h.told.current_lt relation id hsome
    · rw [hhandlers, hnextId]
      exact h.told.handlers_lt
    · rw [hrelationships]
      intro eventId other id' hact hother
      obtain ⟨hdifferent, hold⟩ := hcurrent other id' hother
      rcases hknown _ _ hact with hact | ⟨-, heq⟩
      · exact h.told.undone eventId other id' hact hold
      · cases heq
        exact hdifferent rfl
    · intro declared undone other id' hdeclared hundone
      rcases hknown _ _ hdeclared with hdeclared | ⟨-, heq⟩
      · rcases hknown _ _ hundone with hundone | ⟨rfl, -⟩
        · exact h.told.undo_after declared undone other id' hdeclared hundone
        · exact h.lined.known_lt hdeclared
      · cases heq
    · rw [hrelationships]
      intro other id' declared eventId activity hother hdeclared hact hrelation hne
      obtain ⟨hdifferent, hold⟩ := hcurrent other id' hother
      have hact : s.Known eventId activity := by
        rcases hknown _ _ hact with hact | ⟨-, rfl⟩
        · exact hact
        · exact absurd hrelation.symm hdifferent
      have hdeclared : s.Known declared (.declare other id') := by
        rcases hknown _ _ hdeclared with hdeclared | ⟨-, heq⟩
        · exact hdeclared
        · cases heq
      exact h.told.current_last other id' declared eventId activity hold hdeclared hact hrelation hne
  · refine ⟨?_, ?_, ?_, ?_⟩
    · rw [hrelationships]
      intro other id' hother
      obtain ⟨hdifferent, hold⟩ := hcurrent other id' hother
      refine hunfinished _ ?_ (h.accounted.declared other id' hold)
      rintro heq
      cases heq
      exact hdifferent rfl
    · rw [hrelationships]
      intro other id' eventId hact hother
      rcases hknown _ _ hact with hact | ⟨-, heq⟩
      · by_cases hthis : other = relation ∧ id' = id
        · obtain ⟨rfl, rfl⟩ := hthis
          exact unfinished_recorded fun eventId hknown => hfresh eventId (hshrinks.known _ _ hknown)
        · refine hunfinished _ (by simp) (h.accounted.retracted other id' eventId hact fun hold => ?_)
          by_cases hsame : other = relation
          · rw [hsame, hsome] at hold
            exact hthis ⟨hsame, (Option.some.inj hold).symm⟩
          · exact hother (by rw [hchanges.elsewhere other hsame, hold])
      · cases heq
    · rw [hhandlers, hrelationships, hnextId]
      intro handler hhandler hphase
      obtain ⟨other, id', hactivity, hnot, hlt⟩ := h.accounted.outdated handler hhandler hphase
      exact ⟨other, id', hactivity, fun hother => hnot (hcurrent other id' hother).2, hlt⟩
    · rw [hhandlers, hsent]
      exact h.accounted.posted
  · refine ⟨?_, ?_⟩
    · rw [hrelationships, hsent, hrecorded]
      exact fun other id' hother => h.mirrored.current other id' (hcurrent other id' hother).2
    · rw [hsent, hrecorded]
      exact h.mirrored.sent

/-- What is in force is declared again, if need be. -/
theorem Sound.redeclare (h : Sound s) (hsome : s.relationships.current relation = some id) :
    Sound (s.recordOutboxOnce (.declare relation id)) := by
  obtain ⟨hrelationships, hnextId, hhandlers, hsent, hrecorded⟩ := recordOutboxOnce_same (s := s) (.declare relation id)
  have hknown : ∀ eventId activity, (s.recordOutboxOnce (.declare relation id)).Known eventId activity →
      s.Known eventId activity ∨ eventId = s.nextEventId ∧ activity = .declare relation id :=
    fun eventId activity => known_recordOutboxOnce
  refine ⟨h.lined.recordOutboxOnce _, ?_, ?_, ?_⟩
  · refine ⟨hrelationships ▸ h.told.single, ?_, ?_, ?_, ?_, ?_, ?_⟩
    · rw [hrelationships, hnextId]
      exact h.told.current_lt
    · rw [hnextId]
      intro eventId activity hact
      rcases hknown eventId activity hact with hold | ⟨-, rfl⟩
      · exact h.told.known_lt eventId activity hold
      · exact h.told.current_lt relation id hsome
    · rw [hhandlers, hnextId]
      exact h.told.handlers_lt
    · rw [hrelationships]
      intro eventId other id' hact
      rcases hknown _ _ hact with hact | ⟨-, heq⟩
      · exact h.told.undone eventId other id' hact
      · cases heq
    · intro declared undone other id' hdeclared hundone
      have hundone : s.Known undone (.undo other id') := by
        rcases hknown _ _ hundone with hundone | ⟨-, heq⟩
        · exact hundone
        · cases heq
      rcases hknown _ _ hdeclared with hdeclared | ⟨-, heq⟩
      · exact h.told.undo_after declared undone other id' hdeclared hundone
      · cases heq
        exact absurd hsome (h.told.undone undone relation id hundone)
    · rw [hrelationships]
      intro other id' declared eventId activity hother hdeclared hact hrelation hne
      have hact : s.Known eventId activity := by
        rcases hknown _ _ hact with hact | ⟨-, rfl⟩
        · exact hact
        · have hother' : s.relationships.current relation = some id' := by
            rw [← hother, ← hrelation]
            rfl
          rw [hsome] at hother'
          obtain rfl := Option.some.inj hother'
          obtain rfl : relation = other := hrelation
          exact absurd rfl hne
      rcases hknown _ _ hdeclared with hdeclared | ⟨rfl, -⟩
      · exact h.told.current_last other id' declared eventId activity hother hdeclared hact hrelation hne
      · exact h.lined.known_lt hact
  · refine ⟨?_, ?_, ?_, ?_⟩
    · rw [hrelationships]
      exact fun other id' hother => unfinished_recordOutboxOnce _ (h.accounted.declared other id' hother)
    · rw [hrelationships]
      intro other id' eventId hact hother
      rcases hknown _ _ hact with hact | ⟨-, heq⟩
      · exact unfinished_recordOutboxOnce _ (h.accounted.retracted other id' eventId hact hother)
      · cases heq
        exact absurd hsome hother
    · rw [hhandlers, hrelationships, hnextId]
      exact h.accounted.outdated
    · rw [hhandlers, hsent]
      exact h.accounted.posted
  · refine ⟨?_, ?_⟩
    · rw [hrelationships, hsent, hrecorded]
      exact h.mirrored.current
    · rw [hsent, hrecorded]
      exact h.mirrored.sent

end Changes

theorem Sound.setFollow (h : Sound s) (hstep : s.setFollow = some s') : Sound s' := by
  rw [State.setFollow] at hstep
  split at hstep
  · cases hstep
  · split at hstep
    · obtain rfl := Option.some.inj hstep
      exact h
    · rename_i hnot
      obtain rfl := Option.some.inj hstep
      simp only [Bool.or_eq_true, not_or, Option.not_isSome_iff_eq_none] at hnot
      refine h.declare ?_ ⟨.inl hnot.1, ?_, ?_⟩
      · simp [Relationships.current, hnot]
      · simp [Relationships.current, hnot.1]
      · rintro (_ | _) hne
        · exact absurd rfl hne
        · rfl

/-- A follow ends. -/
theorem Sound.retractFollow {kept : List ℕ} (h : Sound s) (hfollow : s.relationships.follow = some id) :
    Sound (s.retract .follow id { s.relationships with follow := none } kept) := by
  have hrequest : s.relationships.followRequest = none := by
    rcases h.told.single with hnone | hnone
    · rw [hfollow] at hnone
      cases hnone
    · exact hnone
  refine h.retract (by simp [Relationships.current, hfollow]) ⟨.inl rfl, ?_, ?_⟩
  · simp [Relationships.current, hrequest]
  · rintro (_ | _) hne
    · exact absurd rfl hne
    · rfl

theorem Sound.unsetFollow (h : Sound s) (kept : List ℕ) : Sound (s.unsetFollow kept) := by
  rw [State.unsetFollow]
  split
  · rename_i id hfollow
    exact h.retractFollow hfollow
  · rename_i hfollow
    split
    · rename_i id hrequest
      refine h.retract (by simp [Relationships.current, hfollow, hrequest]) ⟨.inr rfl, ?_, ?_⟩
      · simp [Relationships.current, hfollow]
      · rintro (_ | _) hne
        · exact absurd rfl hne
        · rfl
    · exact h

theorem Sound.endFollow (h : Sound s) (kept : List ℕ) : Sound (s.endFollow kept) := by
  rw [State.endFollow]
  split
  · exact h.retractFollow ‹_›
  · exact h

theorem block_endFollow (kept : List ℕ) : (s.endFollow kept).relationships.block = s.relationships.block := by
  rw [State.endFollow]
  split
  · rw [State.retract, (recordOutboxOnce_same _).1]
    rfl
  · rfl

theorem Sound.setBlock (h : Sound s) (kept : List ℕ) : Sound (s.setBlock kept) := by
  have hended := h.endFollow kept
  rw [State.setBlock]
  split
  · rename_i id hblock
    have hcurrent : (s.endFollow kept).relationships.current .block = some id := by
      rw [Relationships.current, block_endFollow, hblock]
    exact hended.redeclare hcurrent
  · rename_i hblock
    refine hended.declare (by rw [Relationships.current, block_endFollow, hblock]) ⟨hended.told.single, rfl, ?_⟩
    rintro (_ | _) hne
    · rfl
    · exact absurd rfl hne

theorem Sound.unsetBlock (h : Sound s) (kept : List ℕ) : Sound (s.unsetBlock kept) := by
  rw [State.unsetBlock]
  split
  · rename_i id hblock
    have hcurrent : s.relationships.current .block = some id := hblock
    refine h.retract hcurrent ⟨h.told.single, rfl, ?_⟩
    rintro (_ | _) hne
    · rfl
    · exact absurd rfl hne
  · exact h

/-! ### Posts -/

theorem get_set (r : Recorded) (value : Option ℕ) (relation other : Relation) :
    (r.set value relation).get other = if other = relation then value else r.get other := by
  cases relation <;> cases other <;> rfl

theorem get_process_declare (r : Recorded) (id : ℕ) (relation other : Relation) :
    (r.process (.declare relation id)).get other = if other = relation then some id else r.get other :=
  get_set r (some id) relation other

theorem get_process_undo (r : Recorded) (id : ℕ) (relation other : Relation) :
    (r.process (.undo relation id)).get other =
      if other = relation ∧ r.get relation = some id then none else r.get other := by
  rw [Recorded.process]
  by_cases hthis : r.get relation = some id
  · rw [if_pos hthis, get_set]
    by_cases hsame : other = relation <;> simp [hthis, hsame]
  · rw [if_neg hthis, if_neg fun h => hthis h.2]

/-- A post is heard as the last word. -/
theorem Mirrored.post (h : Sound s) (hknown : s.Known eventId activity)
    (hlast : ∀ post ∈ s.sent, post.eventId ≤ eventId) :
    (∀ relation id, s.relationships.current relation = some id →
      (∃ post ∈ s.sent ++ [⟨eventId, activity⟩], post.activity = .declare relation id) →
        (s.recorded.process activity).get relation = some id) ∧
    ∀ relation id, (s.recorded.process activity).get relation = some id →
      (∃ post ∈ s.sent ++ [⟨eventId, activity⟩], post.activity = .declare relation id) ∧
        ∀ post ∈ s.sent ++ [⟨eventId, activity⟩], post.activity ≠ .undo relation id := by
  have hsent : ∀ post ∈ s.sent, s.Known post.eventId post.activity := fun post hpost =>
    .inr (.inr ⟨post, hpost, rfl, rfl⟩)
  simp only [List.mem_append, List.mem_singleton]
  cases activity with
  | declare relation id =>
    refine ⟨?_, ?_⟩
    · rintro other id' hcurrent ⟨post, hpost | rfl, hactivity⟩
      · have hbefore := hsent post hpost
        rw [hactivity] at hbefore
        rw [get_process_declare]
        split
        · rename_i hsame
          by_contra hne
          have hlt := h.told.current_last other id' post.eventId eventId (.declare relation id) hcurrent hbefore hknown
            hsame.symm fun heq => hne (by cases heq; rfl)
          exact absurd (hlast post hpost) (not_le.mpr hlt)
        · exact h.mirrored.current other id' hcurrent ⟨post, hpost, hactivity⟩
      · cases hactivity
        rw [get_process_declare, if_pos rfl]
    · intro other id' hrecorded
      rw [get_process_declare] at hrecorded
      split at hrecorded
      · rename_i hsame
        obtain rfl := hsame
        obtain rfl := Option.some.inj hrecorded
        refine ⟨⟨_, .inr rfl, rfl⟩, ?_⟩
        rintro post (hpost | rfl) hundone
        · have hafter := hsent post hpost
          rw [hundone] at hafter
          exact absurd (hlast post hpost) (not_le.mpr (h.told.undo_after eventId post.eventId _ _ hknown hafter))
        · cases hundone
      · rename_i hdifferent
        obtain ⟨⟨post, hpost, hactivity⟩, hnot⟩ := h.mirrored.sent other id' hrecorded
        refine ⟨⟨post, .inl hpost, hactivity⟩, ?_⟩
        rintro other' (hother | rfl)
        · exact hnot other' hother
        · exact fun heq => by cases heq
  | undo relation id =>
    refine ⟨?_, ?_⟩
    · rintro other id' hcurrent ⟨post, hpost | rfl, hactivity⟩
      · have hrecorded := h.mirrored.current other id' hcurrent ⟨post, hpost, hactivity⟩
        rw [get_process_undo, if_neg, hrecorded]
        rintro ⟨rfl, hsame⟩
        rw [hrecorded] at hsame
        rw [Option.some.inj hsame] at hcurrent
        exact h.told.undone eventId other id hknown hcurrent
      · cases hactivity
    · intro other id' hrecorded
      rw [get_process_undo] at hrecorded
      split at hrecorded
      · cases hrecorded
      · rename_i hkept
        obtain ⟨⟨post, hpost, hactivity⟩, hnot⟩ := h.mirrored.sent other id' hrecorded
        refine ⟨⟨post, .inl hpost, hactivity⟩, ?_⟩
        rintro other' (hother | rfl)
        · exact hnot other' hother
        · intro heq
          cases heq
          exact hkept ⟨rfl, hrecorded⟩

theorem Sound.post {leaseOwner : ℕ} (h : Sound s) (hstep : s.post leaseOwner = some s')
    (hfenced : Fenced s (.post leaseOwner)) : Sound s' := by
  have hlined := h.lined.post hstep hfenced
  obtain ⟨handler, hget, -, rfl⟩ := post_eq_some hstep
  obtain ⟨job, hjob, hholds⟩ := hfenced handler hget
  have hhandler := Table.mem_of_get hget
  obtain ⟨hmem, hlive, heventId, hactivity, -⟩ := h.lined.leased hhandler hjob hholds
  have hposted : s.Known handler.eventId handler.activity := .inr (.inl ⟨job, hmem, heventId, hactivity⟩)
  have hknown : ∀ eventId activity, State.Known { s.setPhase leaseOwner .posted with
      sent := s.sent ++ [⟨handler.eventId, handler.activity⟩]
      recorded := s.recorded.process handler.activity } eventId activity → s.Known eventId activity := by
    rintro eventId activity (hevent | hjob | ⟨post, hpost, hid, hact⟩)
    · exact .inl hevent
    · exact .inr (.inl hjob)
    · rcases List.mem_append.mp hpost with hpost | hnew
      · exact .inr (.inr ⟨post, hpost, hid, hact⟩)
      · obtain rfl := List.mem_singleton.mp hnew
        rw [← hid, ← hact]
        exact hposted
  have hunfinished : ∀ activity, s.Unfinished activity → State.Unfinished { s.setPhase leaseOwner .posted with
      sent := s.sent ++ [⟨handler.eventId, handler.activity⟩]
      recorded := s.recorded.process handler.activity } activity := by
    rintro activity (hevent | hjob | ⟨post, hpost, hact⟩)
    · exact .inl hevent
    · exact .inr (.inl hjob)
    · exact .inr (.inr ⟨post, List.mem_append_left _ hpost, hact⟩)
  have hrow : ∀ row ∈ (s.setPhase leaseOwner .posted).handlers.rows,
      row ∈ s.handlers.rows ∨ row.phase = .posted ∧ row.activity = handler.activity := by
    intro row hrow
    obtain ⟨old, hold, rfl⟩ := List.mem_map.mp hrow
    split
    · rename_i howner
      have hsame := Table.mem_iff_get.mp hold
      rw [howner, hget] at hsame
      exact .inr ⟨rfl, by rw [← Option.some.inj hsame]; rfl⟩
    · exact .inl hold
  refine ⟨hlined, ?_, ?_, ?_⟩
  · refine ⟨h.told.single, h.told.current_lt, fun eventId activity hact => h.told.known_lt _ _ (hknown _ _ hact), ?_,
      fun eventId relation id hact => h.told.undone _ _ _ (hknown _ _ hact),
      fun declared undone relation id hdeclared hundone =>
        h.told.undo_after _ _ _ _ (hknown _ _ hdeclared) (hknown _ _ hundone),
      fun relation id declared eventId activity hcurrent hdeclared hact =>
        h.told.current_last _ _ _ _ _ hcurrent (hknown _ _ hdeclared) (hknown _ _ hact)⟩
    intro row hmem
    rcases hrow row hmem with hold | ⟨-, hact⟩
    · exact h.told.handlers_lt row hold
    · rw [hact]
      exact h.told.handlers_lt handler hhandler
  · refine ⟨fun relation id hcurrent => hunfinished _ (h.accounted.declared relation id hcurrent),
      fun relation id eventId hact hcurrent =>
        hunfinished _ (h.accounted.retracted relation id eventId (hknown _ _ hact) hcurrent), ?_, ?_⟩
    · intro row hmem hphase
      rcases hrow row hmem with hold | ⟨hrphase, -⟩
      · exact h.accounted.outdated row hold hphase
      · rw [hphase] at hrphase
        cases hrphase
    · intro row hmem hphase
      rcases hrow row hmem with hold | ⟨-, hact⟩
      · obtain ⟨post, hpost, hact⟩ := h.accounted.posted row hold hphase
        exact ⟨post, List.mem_append_left _ hpost, hact⟩
      · exact ⟨_, List.mem_append_right _ (List.mem_singleton_self _), hact.symm⟩
  · obtain ⟨hcurrent, hsent⟩ := Mirrored.post h hposted fun post hpost =>
      heventId ▸ h.lined.sent_jobs post hpost job hmem hlive
    exact ⟨hcurrent, hsent⟩

/-! ### Runs -/

/-- A step in which whoever posts still has the lease. -/
def FencedStep (s : State) (a : Action) (s' : State) : Prop := s.step a = some s' ∧ Fenced s a

theorem Sound.step {a : Action} (h : Sound s) (hstep : FencedStep s a s') : Sound s' := by
  obtain ⟨hstep, hfenced⟩ := hstep
  cases a with
  | tick elapsed =>
    obtain rfl := Option.some.inj hstep
    exact h.tick elapsed
  | setFollow => exact h.setFollow hstep
  | unsetFollow kept =>
    obtain rfl := Option.some.inj hstep
    exact h.unsetFollow kept
  | acceptFollow => exact h.acceptFollow hstep
  | setBlock kept =>
    obtain rfl := Option.some.inj hstep
    exact h.setBlock kept
  | unsetBlock kept =>
    obtain rfl := Option.some.inj hstep
    exact h.unsetBlock kept
  | dispatchOutbox => exact h.dispatchOutbox hstep
  | claim leaseOwner jobId leaseMilliseconds => exact h.claim hstep
  | renew leaseOwner leaseMilliseconds => exact h.renew hstep
  | check leaseOwner => exact h.check hstep
  | post leaseOwner => exact h.post hstep hfenced
  | complete leaseOwner => exact h.complete hstep
  | fail leaseOwner last => exact h.fail hstep
  | crash leaseOwner =>
    obtain rfl := Option.some.inj hstep
    exact h.stop leaseOwner

/-- No activity is sent after its `Undo`. -/
def SentOnce (s : State) : Prop := s.sent.Pairwise fun earlier later => earlier.activity.undoes later.activity = false

/-- Nothing waits, no job is left, and none has been dead-lettered. -/
structure Quiet (s : State) : Prop where
  events : ∀ event ∈ s.events, event.dispatched = true
  jobs : s.jobs.rows = []

def Agrees (s : State) : Prop := ∀ relation, s.recorded.get relation = s.relationships.current relation

theorem Sound.sentOnce (h : Sound s) : SentOnce s := by
  refine h.lined.sent_sorted.imp_of_mem fun {earlier later} hearlier hlater hle => ?_
  by_contra hundoes
  rw [Bool.not_eq_false] at hundoes
  have hknown : ∀ post ∈ s.sent, s.Known post.eventId post.activity := fun post hpost =>
    .inr (.inr ⟨post, hpost, rfl, rfl⟩)
  have hundone := hknown earlier hearlier
  have hdeclared := hknown later hlater
  cases hearly : earlier.activity with
  | declare =>
    rw [hearly] at hundoes
    cases hundoes
  | undo relation id =>
    cases hlate : later.activity with
    | undo =>
      rw [hearly, hlate] at hundoes
      cases hundoes
    | declare relation' id' =>
      rw [hearly, hlate, Activity.undoes, Bool.and_eq_true, beq_iff_eq, beq_iff_eq] at hundoes
      obtain ⟨rfl, rfl⟩ := hundoes
      rw [hearly] at hundone
      rw [hlate] at hdeclared
      exact absurd hle (not_le.mpr (h.told.undo_after _ _ _ _ hdeclared hundone))

/-- When nothing is left, everything has been sent. -/
theorem Quiet.sent (hquiet : Quiet s) (h : s.Unfinished activity) : ∃ post ∈ s.sent, post.activity = activity := by
  rcases h with ⟨event, hevent, hwaiting, -⟩ | ⟨job, hjob, -⟩ | hpost
  · rw [hquiet.events event hevent] at hwaiting
    cases hwaiting
  · rw [hquiet.jobs] at hjob
    cases hjob
  · exact hpost

theorem Sound.agrees (h : Sound s) (hquiet : Quiet s) : Agrees s := by
  intro relation
  cases hcurrent : s.relationships.current relation with
  | some id =>
    exact h.mirrored.current relation id hcurrent (hquiet.sent (h.accounted.declared relation id hcurrent))
  | none =>
    cases hrecorded : s.recorded.get relation with
    | none => rfl
    | some id =>
      obtain ⟨⟨post, hpost, hactivity⟩, hnot⟩ := h.mirrored.sent relation id hrecorded
      have hknown : s.Known post.eventId (.declare relation id) := .inr (.inr ⟨post, hpost, rfl, hactivity⟩)
      have hundone := h.accounted.retracted relation id post.eventId hknown (by simp [hcurrent])
      obtain ⟨undone, hmem, hactivity⟩ := hquiet.sent hundone
      exact absurd hactivity (hnot undone hmem)

/-- CORRECT (order): in every run in which workers post under a lease that still runs, no activity is sent
    after its `Undo`, and when nothing is left to be delivered the remote server has recorded what the
    database holds. -/
theorem relationship_deliveries_ordered {actions : List Action} (h : Run FencedStep initial actions s) :
    SentOnce s ∧ (Quiet s → Agrees s) := by
  have hsound : Sound s := h.preserves (P := Sound) (fun _ _ _ hinit hstep => hinit.step hstep) sound_initial
  exact ⟨hsound.sentOnce, hsound.agrees⟩

/-! ### Two runs -/

instance : Decidable (SentOnce s) := inferInstanceAs (Decidable (List.Pairwise _ _))

/-- A worker reads that the follow is in force and stalls. Its lease runs out after the follow has been taken
    back, so that others finish its job and send the `Undo` before it goes on. -/
def stalled : List Action :=
  [.setFollow, .dispatchOutbox, .claim 1 1 30, .check 1, .unsetFollow [], .tick 30, .dispatchOutbox, .claim 2 1 30,
    .check 2, .complete 2, .claim 2 2 30, .check 2, .post 2, .complete 2, .post 1]

theorem stalled_isSome : (stalled.foldlM State.step initial).isSome = true := by
  decide

/-- The follow arrives after its `Undo`, and the remote server keeps it. -/
theorem relationship_deliveries_stalled : ¬∀ (s : State) (actions : List Action),
    Run (fun s a s' => s.step a = some s') initial actions s → SentOnce s ∧ (Quiet s → Agrees s) := by
  intro h
  have hsent := (h _ _ (Schemes.Runs.foldlM_getD_run stalled_isSome)).1
  exact absurd hsent (by decide)

/-- Whether the worker that posts has a lease that still runs. -/
def State.isFenced (s : State) : Action → Bool
  | .post leaseOwner => (s.handlers.get leaseOwner).all fun handler =>
    (s.jobs.get handler.jobId).any fun job => handler.holds s.now job
  | _ => true

theorem fenced_of_isFenced {a : Action} (h : s.isFenced a = true) : Fenced s a := by
  cases a with
  | post leaseOwner =>
    intro handler hget
    rw [State.isFenced, hget, Option.all_some, Option.any_eq_true] at h
    exact h
  | _ => trivial

def State.fencedStep (s : State) (a : Action) : Option State := if s.isFenced a then s.step a else none

theorem fencedStep_of_eq {a : Action} (h : s.fencedStep a = some s') : FencedStep s a s' := by
  rw [State.fencedStep] at h
  split at h
  · exact ⟨h, fenced_of_isFenced ‹_›⟩
  · cases h

/-- A follow is delivered and accepted; then the account is blocked, after a first attempt that fails. -/
def blocked : List Action :=
  [.setFollow, .dispatchOutbox, .claim 1 1 30, .check 1, .post 1, .complete 1, .acceptFollow, .setBlock [],
    .dispatchOutbox, .claim 1 2 30, .check 1, .post 1, .fail 1 false, .dispatchOutbox, .claim 2 2 30, .check 2, .post 2,
    .renew 2 60, .complete 2, .claim 1 3 30, .check 1, .post 1, .complete 1]

theorem blocked_isSome : (blocked.foldlM State.fencedStep initial).isSome = true := by
  decide

theorem relationship_deliveries_blocked :
    (SentOnce ((blocked.foldlM State.fencedStep initial).getD initial) ∧
      (Quiet ((blocked.foldlM State.fencedStep initial).getD initial) →
        Agrees ((blocked.foldlM State.fencedStep initial).getD initial))) ∧
    ((blocked.foldlM State.fencedStep initial).getD initial).recorded = ⟨none, some 2⟩ := by
  have hrun : Run FencedStep initial blocked _ :=
    (Schemes.Runs.foldlM_getD_run blocked_isSome).mono fun _ _ _ => fencedStep_of_eq
  exact ⟨relationship_deliveries_ordered hrun, by decide⟩

end Rustodon.Outgoing
