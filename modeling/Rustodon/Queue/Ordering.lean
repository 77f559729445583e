import Rustodon.Queue.Fencing

/-! @src jobs.rs | name:Ordered jobs | scheme:row locks | family:queue

    The jobs of a kind and an ordering key are run one at a time, in the order in which they were
    committed. This rests on the lock of the marker row: it is held from before the id of a job is
    allocated until the job is committed. -/

namespace Rustodon.Queue
open Schemes.Checked Schemes.Json Schemes.Runs

variable {env : Env} {s s' : State} {op : Op} {response : Response} {labels : List Label}
  {t : TxnId} {spec : JobSpec}

/-! ### Transactions serialised on the marker -/

/-- A patch that says nothing about the ordering key. -/
def keepsOrdering (patch : Value) : Bool :=
  match patch.asObject with
  | some fields => (get fields orderingKeyField).isNone
  | none => true

/-- What the ordered enqueues rely on. The marker is there when it is selected, so that the id is
    allocated under its lock; jobs of one kind use one ordering kind; and only an ordered enqueue
    gives a job its ordering key. -/
def serialised (env : Env) (s : State) : Op → Bool
  | .next t =>
    match s.stages t with
    | .ordered call .select _ =>
      (s.markers call.markerKey).isSome || (s.markerLocks call.markerKey).isSome
    | .dispatching (event :: _) =>
      match outboxSpec env event.kind event.logicalKey event.payload with
      | .ok spec => (activitypubDeliveryOrderingKey env spec).isSome ||
          (orderingKeyOf env spec.arguments).isNone
      | .error _ => true
    | _ => true
  | .enqueue _ spec => (orderingKeyOf env spec.arguments).isNone
  | .enqueueOrdered _ spec _ => decide (spec.kind ≠ activitypubDeliveryJobKind)
  | .mergeJobArguments _ patch => keepsOrdering patch
  | .initializeJobArguments _ patch => keepsOrdering patch
  | _ => true

/-- Steps of transactions that are serialised on the marker. -/
def SerialStep (env : Env) (s : State) (label : Label) (s' : State) : Prop :=
  serialised env s label.1 = true ∧ Step env s label s'

theorem run_of_serial {start : State} (h : Run (SerialStep env) start labels s) :
    Run (Step env) start labels s :=
  h.mono fun _ _ _ hstep => hstep.2

/-- Jobs of one kind with one ordering key. -/
def SameOrder (env : Env) (a b : Job) : Prop :=
  a.kind = b.kind ∧ ∃ key, a.orderingKey env = some key ∧ b.orderingKey env = some key

theorem SameOrder.symm {a b : Job} (h : SameOrder env a b) : SameOrder env b a := by
  obtain ⟨hkind, key, ha, hb⟩ := h
  exact ⟨hkind.symm, key, hb, ha⟩

/-- A transaction holds the lock of a marker. -/
def Holds (s : State) (t : TxnId) (key : MarkerKey) : Prop :=
  ∃ lock, s.markerLocks key = some lock ∧ lock.holder = t

theorem Holds.unique {t' : TxnId} {key : MarkerKey} (h : Holds s t key) (h' : Holds s t' key) :
    t = t' := by
  obtain ⟨lock, hlock, rfl⟩ := h
  obtain ⟨lock', hlock', rfl⟩ := h'
  rw [hlock] at hlock'
  exact congrArg MarkerLock.holder (Option.some.inj hlock')

/-- The marker of the jobs of a kind and an ordering key. -/
def markerOf (kind : String) (orderingKey : List UInt8) : MarkerKey :=
  (if kind = activitypubDeliveryJobKind then activitypubDeliveryOrderingKind
    else activitypubInboxOrderingKind, orderingKey)

/-- What carries the order. -/
structure Fifo (env : Env) (s : State) : Prop where
  /-- An ordered enqueue uses the marker of its jobs, -/
  call : ∀ t call progress caller, s.stages t = .ordered call progress caller →
    call.markerKey = markerOf call.spec.kind call.orderingKey
  /-- and holds its lock when it comes to insert the job. -/
  stage : ∀ t call previous caller, s.stages t = .ordered call (.enqueue previous) caller →
    Holds s t call.markerKey
  /-- An inserted job is new, -/
  fresh : ∀ row ∈ s.pendingJobs, row.2.generation = 0 ∧ row.2.status = .waiting
  /-- its transaction holds the lock of its marker until the commit, -/
  pending : ∀ row ∈ s.pendingJobs, ∀ key, row.2.orderingKey env = some key →
    ∃ orderingKey, key = hex orderingKey ∧ Holds s row.1 (markerOf row.2.kind orderingKey)
  /-- and until then nobody else commits a job of its order. -/
  later : ∀ row ∈ s.pendingJobs, ∀ job ∈ s.jobs, SameOrder env job row.2 → job.id < row.2.id
  /-- A job behind a live one of its order has never been claimed, -/
  unclaimed : ∀ a ∈ s.jobs, ∀ b ∈ s.jobs, SameOrder env a b → a.id < b.id → a.live = true →
    b.generation = 0
  /-- and a job that has never been claimed is not leased. -/
  unleased : ∀ job ∈ s.jobs, job.generation = 0 → job.leaseOwner = none

theorem fifo_initial (env : Env) (start : ℤ) : Fifo env (initial start) where
  call _ _ _ _ h := Stage.noConfusion h
  stage _ _ _ _ h := Stage.noConfusion h
  fresh _ h := absurd h List.not_mem_nil
  pending _ h := absurd h List.not_mem_nil
  later _ h := absurd h List.not_mem_nil
  unclaimed _ h := absurd h List.not_mem_nil
  unleased _ h := absurd h List.not_mem_nil

/-! ### Changes of the state -/

/-- Nothing that the order rests on changes. -/
theorem Fifo.congr (h : Fifo env s) (hjobs : s'.jobs = s.jobs)
    (hpending : s'.pendingJobs = s.pendingJobs) (hlocks : s'.markerLocks = s.markerLocks)
    (hstages : s'.stages = s.stages) : Fifo env s' := by
  have hholds : ∀ t key, Holds s t key → Holds s' t key := by
    intro t key hlock
    rwa [Holds, hlocks]
  constructor
  · rw [hstages]
    exact h.call
  · rw [hstages]
    exact fun t call previous caller hstage => hholds _ _ (h.stage t call previous caller hstage)
  · rw [hpending]
    exact h.fresh
  · rw [hpending]
    intro row hrow key hkey
    obtain ⟨orderingKey, heq, hlock⟩ := h.pending row hrow key hkey
    exact ⟨orderingKey, heq, hholds _ _ hlock⟩
  · rw [hpending, hjobs]
    exact h.later
  · rw [hjobs]
    exact h.unclaimed
  · rw [hjobs]
    exact h.unleased

/-- A transaction goes on to another statement. -/
theorem Fifo.setStage (h : Fifo env s) {stage : Stage}
    (hcall : ∀ call progress caller, stage = .ordered call progress caller →
      call.markerKey = markerOf call.spec.kind call.orderingKey)
    (hstage : ∀ call previous caller, stage = .ordered call (.enqueue previous) caller →
      Holds s t call.markerKey) : Fifo env (s.setStage t stage) where
  call t' call progress caller heq := by
    simp only [State.setStage] at heq
    split_ifs at heq with ht
    · exact hcall call progress caller heq
    · exact h.call t' call progress caller heq
  stage t' call previous caller heq := by
    simp only [State.setStage] at heq
    split_ifs at heq with ht
    · subst ht
      exact hstage call previous caller heq
    · exact h.stage t' call previous caller heq
  fresh := h.fresh
  pending := h.pending
  later := h.later
  unclaimed := h.unclaimed
  unleased := h.unleased

theorem Holds.holdMarker {t' : TxnId} {key key' : MarkerKey} {written : Option Marker}
    (h : Holds s t' key') (hfree : ∀ lock, s.markerLocks key = some lock → lock.holder = t) :
    Holds (s.holdMarker t key written) t' key' := by
  obtain ⟨lock, hlock, rfl⟩ := h
  by_cases hkey : key' = key
  · subst hkey
    exact ⟨⟨t, written⟩, by simp [State.holdMarker], (hfree lock hlock).symm⟩
  · exact ⟨lock, by simp [State.holdMarker, hkey, hlock], rfl⟩

theorem holds_holdMarker (s : State) (t : TxnId) (key : MarkerKey) (written : Option Marker) :
    Holds (s.holdMarker t key written) t key :=
  ⟨⟨t, written⟩, by simp [State.holdMarker], rfl⟩

/-- A transaction takes a marker that is free or its own. -/
theorem Fifo.holdMarker (h : Fifo env s) {key : MarkerKey} {written : Option Marker}
    (hfree : ∀ lock, s.markerLocks key = some lock → lock.holder = t) :
    Fifo env (s.holdMarker t key written) where
  call := h.call
  stage t' call previous caller heq := (h.stage t' call previous caller heq).holdMarker hfree
  fresh := h.fresh
  pending row hrow key' hkey := by
    obtain ⟨orderingKey, heq, hlock⟩ := h.pending row hrow key' hkey
    exact ⟨orderingKey, heq, hlock.holdMarker hfree⟩
  later := h.later
  unclaimed := h.unclaimed
  unleased := h.unleased

/-- A job is inserted without an ordering key, or under the lock of its marker. -/
theorem Fifo.insertJob (h : Fifo env s) (hwf : WellFormed s) {id : ℕ} {inserted : Bool}
    (hinsert : s.insertJob t spec = some (s', id, inserted))
    (hkey : ∀ key, orderingKeyOf env spec.arguments = some key →
      ∃ orderingKey, key = hex orderingKey ∧ Holds s t (markerOf spec.kind orderingKey)) :
    Fifo env s' := by
  rcases insertJob_cases hinsert with ⟨-, rfl, -⟩ | ⟨-, -, rfl, -⟩
  · exact h.congr rfl rfl rfl rfl
  · have hrows : ∀ row ∈ s.pendingJobs ++ [(t, Job.new s.nextJobId spec)],
        row ∈ s.pendingJobs ∨ row = (t, Job.new s.nextJobId spec) := by
      intro row hrow
      simpa using hrow
    constructor
    · exact h.call
    · exact h.stage
    · intro row hrow
      rcases hrows row hrow with hrow | rfl
      · exact h.fresh row hrow
      · exact ⟨rfl, rfl⟩
    · intro row hrow key hrowkey
      rcases hrows row hrow with hrow | rfl
      · exact h.pending row hrow key hrowkey
      · exact hkey key hrowkey
    · intro row hrow job hjob hsame
      rcases hrows row hrow with hrow | rfl
      · exact h.later row hrow job hjob hsame
      · exact hwf.job_lt hjob
    · exact h.unclaimed
    · exact h.unleased

theorem Holds.release {t' : TxnId} {key : MarkerKey} (h : Holds s t' key) (hne : t' ≠ t) :
    Holds (s.release t) t' key := by
  obtain ⟨lock, hlock, rfl⟩ := h
  exact ⟨lock, by simp [State.release, hlock, hne], rfl⟩

/-- A transaction gives up its rows and its locks. -/
theorem Fifo.release (h : Fifo env s) (t : TxnId) : Fifo env (s.release t) where
  call t' call progress caller heq := by
    simp only [State.release] at heq
    split_ifs at heq
    exact h.call t' call progress caller heq
  stage t' call previous caller heq := by
    simp only [State.release] at heq
    split_ifs at heq with ht
    exact (h.stage t' call previous caller heq).release ht
  fresh row hrow := h.fresh row (mem_others.mp hrow).1
  pending row hrow key hkey := by
    obtain ⟨hmem, hne⟩ := mem_others.mp hrow
    obtain ⟨orderingKey, heq, hlock⟩ := h.pending row hmem key hkey
    exact ⟨orderingKey, heq, hlock.release hne⟩
  later row hrow := h.later row (mem_others.mp hrow).1
  unclaimed := h.unclaimed
  unleased := h.unleased

/-- The jobs of one order that are pending are those of one transaction. -/
theorem Fifo.same_holder (h : Fifo env s) {row row' : TxnId × Job} (hrow : row ∈ s.pendingJobs)
    (hrow' : row' ∈ s.pendingJobs) (hsame : SameOrder env row.2 row'.2) : row.1 = row'.1 := by
  obtain ⟨hkind, key, hkey, hkey'⟩ := hsame
  obtain ⟨orderingKey, rfl, hlock⟩ := h.pending row hrow key hkey
  obtain ⟨orderingKey', heq, hlock'⟩ := h.pending row' hrow' _ hkey'
  obtain rfl := hex_injective heq
  rw [hkind] at hlock
  exact hlock.unique hlock'

/-- A commit adds the jobs of a transaction behind those of their order. -/
theorem Fifo.commit (h : Fifo env s) (t : TxnId) : Fifo env (s.commit t) := by
  have hrelease := h.release t
  have hmem : ∀ job ∈ (s.commit t).jobs, job ∈ s.jobs ∨ (t, job) ∈ s.pendingJobs := by
    intro job hjob
    exact (List.mem_append.mp hjob).imp_right mem_own.mp
  refine ⟨hrelease.call, hrelease.stage, hrelease.fresh, hrelease.pending, ?_, ?_, ?_⟩
  · intro row hrow job hjob hsame
    obtain ⟨hpending, hne⟩ := mem_others.mp hrow
    rcases hmem job hjob with hjob | hjob
    · exact h.later row hpending job hjob hsame
    · exact absurd (h.same_holder hpending hjob hsame.symm) hne
  · intro a ha b hb hsame hlt hlive
    rcases hmem b hb with hb | hb
    · rcases hmem a ha with ha | ha
      · exact h.unclaimed a ha b hb hsame hlt hlive
      · exact absurd (h.later (t, a) ha b hb hsame.symm) (Nat.lt_asymm hlt)
    · exact (h.fresh (t, b) hb).1
  · intro job hjob hgeneration
    rcases hmem job hjob with hjob | hjob
    · exact h.unleased job hjob hgeneration
    · have hstatus : job.status = .waiting := (h.fresh (t, job) hjob).2
      rw [Job.leaseOwner, hstatus]

/-! ### Statements -/

theorem textOf_congr {fields fields' : Fields} {field : String}
    (h : get fields field = get fields' field) :
    textOf env (.object fields) field = textOf env (.object fields') field := by
  have h : fields.lookup field = fields'.lookup field := h
  simp only [textOf, Value.asObject, Option.bind_eq_bind, Option.bind_some, h]

/-- A patch without an ordering key, laid over or under the arguments, does not change theirs. -/
theorem orderingKeyOf_concat {patch : Value} (hobject : patch.isObject = true)
    (hkeeps : keepsOrdering patch = true) (arguments : Value) :
    orderingKeyOf env (concat arguments patch) = orderingKeyOf env arguments ∧
      orderingKeyOf env (concat patch arguments) = orderingKeyOf env arguments := by
  cases patch with
  | object patch =>
    have hnone : get patch orderingKeyField = none := Option.isNone_iff_eq_none.mp hkeeps
    cases arguments with
    | object fields =>
      exact ⟨textOf_congr (get_merge hnone fields), textOf_congr (get_merge_under hnone fields)⟩
    | _ => exact ⟨rfl, rfl⟩
  | _ => cases hobject

/-- What a statement makes of a row, as far as the order is concerned. -/
theorem Effect.order (hserial : serialised env s op = true) (hwf : WellFormed s) {job job' : Job}
    (hjob : job ∈ s.jobs) (h : Effect env s op job (some job')) :
    job'.orderingKey env = job.orderingKey env ∧ (job'.live = true → job.live = true) ∧
      (job'.generation = job.generation ∨
        ∃ lanes, claimable env s.jobs lanes s.now job = true) := by
  generalize hresult : some job' = result at h
  cases h with
  | unchanged =>
    obtain rfl := Option.some.inj hresult
    exact ⟨rfl, id, .inl rfl⟩
  | claimed _ _ hfound hid =>
    obtain rfl := Option.some.inj hresult
    obtain ⟨hmem, hclaimable⟩ := candidate_mem hfound
    obtain rfl := hwf.eq_of_id hjob hmem hid
    refine ⟨rfl, fun _ => ?_, .inr ⟨_, hclaimable⟩⟩
    simp only [claimable, Bool.and_eq_true, and_assoc] at hclaimable
    exact hclaimable.1
  | fenced _ hfences heffect =>
    have hlive := (fences_iff.mp hfences).2.2.2.1
    cases heffect with
    | merged _ hpatch =>
      obtain rfl := Option.some.inj hresult
      exact ⟨(orderingKeyOf_concat hpatch hserial job.arguments).1, fun _ => hlive, .inl rfl⟩
    | initialized _ hpatch =>
      obtain rfl := Option.some.inj hresult
      exact ⟨(orderingKeyOf_concat hpatch hserial job.arguments).2, fun _ => hlive, .inl rfl⟩
    | completed => cases hresult
    | renewed | exhausted | retried | dead =>
      obtain rfl := Option.some.inj hresult
      exact ⟨rfl, fun _ => hlive, .inl rfl⟩
  | cancelled => cases hresult

theorem claimable_iff {jobs : List Job} {lanes : List Lane} {now : ℤ} {job : Job} :
    claimable env jobs lanes now job = true ↔ job.live = true ∧ job.runAt ≤ now ∧
      job.held now = false ∧ job.lane ∈ lanes ∧ jobs.any (isPredecessor env job) = false ∧
      jobs.any (isEarlier env job) = false := by
  simp only [claimable, Bool.and_eq_true, Bool.not_eq_true', decide_eq_true_eq,
    List.contains_iff_mem, and_assoc]

/-- A row that can be claimed has no earlier live row of its order. -/
theorem le_of_claimable {jobs : List Job} {lanes : List Lane} {now : ℤ} {a b : Job}
    (h : claimable env jobs lanes now b = true) (ha : a ∈ jobs) (hsame : SameOrder env a b)
    (hlive : a.live = true) : b.id ≤ a.id := by
  by_contra hlt
  obtain ⟨hkind, key, hkey, hkey'⟩ := hsame
  have hearlier := List.any_eq_false.mp (claimable_iff.mp h).2.2.2.2.2 a ha
  refine hearlier ?_
  simp [isEarlier, hkind, hkey, hkey', hlive, Nat.lt_of_not_le hlt]

/-- The order survives every statement on rows. -/
theorem Fifo.statement (h : Fifo env s) (hwf : WellFormed s) (hserial : serialised env s op = true)
    {statement : Statement} (hstatement : Queue.statement env s op = some statement) :
    Fifo env { s with jobs := s.jobs.filterMap statement.effect } := by
  have hrows : ∀ job' ∈ s.jobs.filterMap statement.effect, ∃ job ∈ s.jobs,
      Effect env s op job (some job') := by
    intro job' hjob'
    obtain ⟨job, hjob, heq⟩ := List.mem_filterMap.mp hjob'
    exact ⟨job, hjob, heq ▸ statement_effect hstatement job⟩
  have hsame : ∀ {job job' other other' : Job}, job ∈ s.jobs → Effect env s op job (some job') →
      other.kind = other'.kind → other.orderingKey env = other'.orderingKey env →
      SameOrder env job' other' → SameOrder env job other := by
    intro job job' other other' hjob heffect hkind hkey ⟨hkind', key, hjobkey, hotherkey⟩
    rw [(heffect.order hserial hwf hjob).1] at hjobkey
    exact ⟨heffect.keeps.2.1.symm.trans (hkind'.trans hkind.symm), key, hjobkey,
      hkey.trans hotherkey⟩
  refine ⟨h.call, h.stage, h.fresh, h.pending, ?_, ?_, ?_⟩
  · intro row hrow job' hjob' horder
    obtain ⟨job, hjob, heffect⟩ := hrows job' hjob'
    rw [heffect.keeps.1]
    exact h.later row hrow job hjob (hsame hjob heffect rfl rfl horder)
  · intro a' ha' b' hb' horder hlt hlive
    obtain ⟨a, ha, haeffect⟩ := hrows a' ha'
    obtain ⟨b, hb, hbeffect⟩ := hrows b' hb'
    obtain ⟨hbkey, -, hgeneration⟩ := hbeffect.order hserial hwf hb
    have hlive := (haeffect.order hserial hwf ha).2.1 hlive
    have hlt : a.id < b.id := by rwa [haeffect.keeps.1, hbeffect.keeps.1] at hlt
    have horder := hsame ha haeffect hbeffect.keeps.2.1.symm hbkey.symm horder
    rcases hgeneration with hgeneration | ⟨lanes, hclaimable⟩
    · rw [hgeneration]
      exact h.unclaimed a ha b hb horder hlt hlive
    · exact absurd (le_of_claimable hclaimable ha horder hlive) (Nat.not_le_of_lt hlt)
  · intro job' hjob' hgeneration
    obtain ⟨job, hjob, heffect⟩ := hrows job' hjob'
    generalize hresult : some job' = result at heffect
    cases heffect with
    | unchanged =>
      obtain rfl := Option.some.inj hresult
      exact h.unleased job' hjob hgeneration
    | claimed =>
      obtain rfl := Option.some.inj hresult
      exact absurd hgeneration (Nat.succ_ne_zero _)
    | fenced _ hfences heffect =>
      have howner := (fences_iff.mp hfences).2.1
      have hnone : job.generation = 0 → False := fun hzero => by
        rw [h.unleased job hjob hzero] at howner
        cases howner
      cases heffect <;> cases hresult <;> exact (hnone hgeneration).elim
    | cancelled => cases hresult

/-! ### Transactions -/

theorem EventsOnly.fifo (h : Fifo env s) (hevents : EventsOnly s s') (hstages : s'.stages = s.stages) :
    Fifo env s' :=
  h.congr hevents.jobs hevents.pendingJobs hevents.markerLocks hstages

theorem Fifo.insertMarker (h : Fifo env s) {call : OrderedCall}
    {caller : Option (Event × List Event)}
    (hcall : call.markerKey = markerOf call.spec.kind call.orderingKey)
    (hinsert : s.insertMarker t call caller = some s') : Fifo env s' := by
  have hset : Fifo env (s.setStage t (.ordered call .select caller)) :=
    h.setStage (by rintro _ _ _ ⟨⟩; exact hcall) (by rintro _ _ _ ⟨⟩)
  rcases insertMarker_cases hinsert with rfl | ⟨hfree, -, written, rfl⟩
  · exact hset
  · exact hset.holdMarker fun lock hlock => by
      rw [show s.markerLocks call.markerKey = some lock from hlock] at hfree
      cases hfree

/-- The marker is there, so that it is locked when it has been read. -/
theorem Fifo.selectMarker (h : Fifo env s) {call : OrderedCall}
    {caller : Option (Event × List Event)}
    (hcall : call.markerKey = markerOf call.spec.kind call.orderingKey)
    (hthere : (s.markers call.markerKey).isSome ∨ (s.markerLocks call.markerKey).isSome)
    (hselect : s.selectMarker t call caller = some s') : Fifo env s' := by
  obtain ⟨previous, ⟨lock, hlock, hholder, rfl⟩ | ⟨hfree, rfl⟩ | ⟨hfree, hnone, rfl⟩⟩ :=
    selectMarker_cases hselect
  · exact h.setStage (by rintro _ _ _ ⟨⟩; exact hcall)
      (by rintro _ _ _ ⟨⟩; exact ⟨lock, hlock, hholder⟩)
  · -- the stage and the lock come together
    have hheld : Fifo env (s.holdMarker t call.markerKey none) :=
      h.holdMarker fun lock hlock => by rw [hfree] at hlock; cases hlock
    have hset : Fifo env ((s.holdMarker t call.markerKey none).setStage t
        (.ordered call (.enqueue previous) caller)) :=
      hheld.setStage (by rintro _ _ _ ⟨⟩; exact hcall)
        (by rintro _ _ _ ⟨⟩; exact holds_holdMarker s t _ none)
    exact hset
  · rw [hfree, hnone] at hthere
    rcases hthere with hthere | hthere <;> cases hthere

theorem Fifo.enqueueOrderedSpec (h : Fifo env s) (hwf : WellFormed s) {call : OrderedCall}
    {previous : Option (ℤ × Option ℕ)} {caller : Option (Event × List Event)}
    (hstage : s.stages t = .ordered call (.enqueue previous) caller)
    (henqueue : s.enqueueOrderedSpec t call previous caller = some (s', response)) :
    Fifo env s' := by
  have hcall := h.call t call _ caller hstage
  have hlock := h.stage t call previous caller hstage
  rcases enqueueOrderedSpec_cases henqueue with ⟨error, rfl, -⟩ |
    ⟨spec, s₁, id, inserted, hmetadata, -, hinsert, -, rfl⟩
  · exact h.release t
  · have hordered : Ordered env call.spec call.orderingKey (orderedRunAt call.spec previous) spec :=
      withOrderingMetadata_ok hmetadata
    have hjob : Fifo env s₁ := by
      refine h.insertJob hwf hinsert fun key hkey => ⟨call.orderingKey, ?_, ?_⟩
      · rw [hordered.key] at hkey
        exact (Option.some.inj hkey).symm
      · rwa [hordered.kind, ← hcall]
    exact hjob.setStage (by rintro _ _ _ ⟨⟩; exact hcall) (by rintro _ _ _ ⟨⟩)

theorem Fifo.upsertMarker (h : Fifo env s) {call : OrderedCall} {id : ℕ} {runAt : ℤ}
    {caller : Option (Event × List Event)}
    (hupsert : s.upsertMarker t call id runAt caller = some (s', response)) : Fifo env s' := by
  obtain ⟨hfree, written, ⟨-, rfl, -⟩ | ⟨event, rest, -, -, rfl⟩⟩ := upsertMarker_cases hupsert
  · exact (h.holdMarker hfree).setStage (by rintro _ _ _ ⟨⟩) (by rintro _ _ _ ⟨⟩)
  · have hset : Fifo env ((s.holdMarker t call.markerKey written).setStage t (.dispatching rest)) :=
      (h.holdMarker hfree).setStage (by rintro _ _ _ ⟨⟩) (by rintro _ _ _ ⟨⟩)
    exact hset.congr rfl rfl rfl rfl

theorem Fifo.dispatchEvent (h : Fifo env s) (hwf : WellFormed s) {event : Event}
    {rest : List Event}
    (hplain : ∀ spec, outboxSpec env event.kind event.logicalKey event.payload = .ok spec →
      activitypubDeliveryOrderingKey env spec = none → orderingKeyOf env spec.arguments = none)
    (hdispatch : s.dispatchEvent env t event rest = some (s', response)) : Fifo env s' := by
  rcases dispatchEvent_cases hdispatch with ⟨error, rfl, -⟩ |
    ⟨spec, orderingKey, -, hkey, -, hinsert⟩ | ⟨spec, s₁, id, inserted, hspec, hkey, -, hinsert, hs'⟩
  · exact h.release t
  · refine h.insertMarker ?_ hinsert
    simp only [OrderedCall.markerKey, markerOf, if_pos (delivery_kind hkey)]
  · have hjob : Fifo env s₁ := h.insertJob hwf hinsert fun key hsome => by
      rw [hplain spec hspec hkey] at hsome
      cases hsome
    have hset : Fifo env (s₁.setStage t (.dispatching rest)) :=
      hjob.setStage (by rintro _ _ _ ⟨⟩) (by rintro _ _ _ ⟨⟩)
    rcases hs' with ⟨-, rfl⟩ | ⟨-, rfl⟩
    · exact hset.congr rfl rfl rfl rfl
    · exact hset

theorem Fifo.next (h : Fifo env s) (hwf : WellFormed s) (hserial : serialised env s (.next t) = true)
    (hnext : s.next env t = some (s', response)) : Fifo env s' := by
  rw [State.next] at hnext
  rw [serialised] at hserial
  cases hstage : s.stages t with
  | idle =>
    rw [hstage] at hnext
    cases hnext
  | dispatching rows =>
    cases rows with
    | nil =>
      rw [hstage] at hnext
      cases hnext
    | cons event rest =>
      rw [hstage] at hnext hserial
      refine h.dispatchEvent hwf (fun spec hspec hkey => ?_) hnext
      simpa [hspec, hkey] using hserial
  | ordered call progress caller =>
    rw [hstage] at hnext hserial
    cases progress with
    | select =>
      obtain ⟨s₁, hselect, heq⟩ := Option.map_eq_some_iff.mp hnext
      obtain ⟨rfl, -⟩ := Prod.mk.inj heq
      exact h.selectMarker (h.call t call _ caller hstage) (by simpa using hserial) hselect
    | enqueue previous => exact h.enqueueOrderedSpec hwf hstage hnext
    | upsert id runAt => exact h.upsertMarker hnext

/-- The order survives every step of the transactions. -/
theorem Fifo.transact (h : Fifo env s) (hwf : WellFormed s) (hserial : serialised env s op = true)
    (htransact : Queue.transact env s op = some (s', response)) : Fifo env s' := by
  cases op with
  | tick elapsed =>
    obtain ⟨rfl, -⟩ := Prod.mk.inj (Option.some.inj htransact)
    exact h.congr rfl rfl rfl rfl
  | cancelEvents kind logicalKey =>
    obtain ⟨hevents, hstages⟩ := cancelEvents_eventsOnly htransact
    exact hevents.fifo h hstages
  | pruneMarker key =>
    obtain ⟨hevents, hstages⟩ := pruneMarker_eventsOnly htransact
    exact hevents.fifo h hstages
  | enqueue t spec =>
    obtain ⟨-, henqueue⟩ := whenIdle_eq_some htransact
    rcases enqueue_cases henqueue with ⟨error, rfl, -⟩ | ⟨id, inserted, -, hinsert, -⟩
    · exact h
    · refine h.insertJob hwf hinsert fun key hkey => ?_
      rw [Option.isNone_iff_eq_none.mp hserial] at hkey
      cases hkey
  | enqueueOrdered t spec orderingKey =>
    obtain ⟨-, henqueue⟩ := whenIdle_eq_some htransact
    obtain ⟨s₁, hinsert, heq⟩ := Option.map_eq_some_iff.mp henqueue
    obtain ⟨rfl, -⟩ := Prod.mk.inj heq
    refine h.insertMarker ?_ hinsert
    have hkind : spec.kind ≠ activitypubDeliveryJobKind := of_decide_eq_true hserial
    simp only [OrderedCall.markerKey, markerOf, if_neg hkind]
  | recordOutbox t spec =>
    obtain ⟨hevents, hstages⟩ := recordOutbox_eventsOnly (whenIdle_eq_some htransact).2
    exact hevents.fifo h hstages
  | recordOutboxOnce t spec =>
    obtain ⟨hevents, hstages⟩ := recordOutboxOnce_eventsOnly (whenIdle_eq_some htransact).2
    exact hevents.fifo h hstages
  | dispatchOutbox t limit skipped =>
    obtain ⟨hevents, hstages⟩ := dispatchOutbox_eventsOnly (whenIdle_eq_some htransact).2
    rcases hstages with hstages | ⟨rows, hstages⟩
    · exact hevents.fifo h hstages
    · have hset : Fifo env (s.setStage t (.dispatching rows)) :=
        h.setStage (by rintro _ _ _ ⟨⟩) (by rintro _ _ _ ⟨⟩)
      exact hset.congr hevents.jobs hevents.pendingJobs hevents.markerLocks hstages
  | next t => exact h.next hwf hserial htransact
  | commit t =>
    rw [Queue.transact] at htransact
    split_ifs at htransact
    obtain ⟨rfl, -⟩ := Prod.mk.inj (Option.some.inj htransact)
    exact h.commit t
  | rollback t =>
    obtain ⟨rfl, -⟩ := Prod.mk.inj (Option.some.inj htransact)
    exact h.release t
  | _ => cases htransact

theorem Fifo.step (h : Fifo env s) (hwf : WellFormed s)
    (hstep : SerialStep env s (op, response) s') : Fifo env s' := by
  rcases step_cases hstep.2 with ⟨statement, hstatement, -, rfl⟩ | ⟨-, htransact⟩
  · exact h.statement hwf hstep.1 hstatement
  · exact h.transact hwf hstep.1 htransact

theorem fifo_of_run {start : ℤ} (h : Run (SerialStep env) (initial start) labels s) :
    Fifo env s :=
  h.invariant (P := fun _ s => Fifo env s) (fifo_initial env start)
    fun _ _ _ _ run hfifo hstep => hfifo.step (wellFormed_of_run (run_of_serial run)) hstep

/-! ### First in, first out -/

/-- A job of this kind and ordering key, committed or not. -/
def Member (env : Env) (s : State) (kind key : String) (job : Job) : Prop :=
  (job ∈ s.jobs ∨ job ∈ s.pendingJobs.map Prod.snd) ∧ job.kind = kind ∧
    job.orderingKey env = some key

/-- The job of a claim is the first live member of its order. -/
theorem Fifo.first (h : Fifo env s) {lanes : List Lane} {skipped : List ℕ} (found : Job)
    {job : Job} {key : String} (hfound : candidate env s.jobs lanes s.now skipped = some found)
    (hkey : found.orderingKey env = some key) (hjob : Member env s found.kind key job)
    (hlive : job.live = true) : found.id ≤ job.id := by
  obtain ⟨hmem, hclaimable⟩ := candidate_mem hfound
  obtain ⟨hin | hin, hkind, hjobkey⟩ := hjob
  · exact le_of_claimable hclaimable hin ⟨hkind, key, hjobkey, hkey⟩ hlive
  · obtain ⟨row, hrow, rfl⟩ := List.mem_map.mp hin
    exact (h.later row hrow found hmem ⟨hkind.symm, key, hkey, hjobkey⟩).le

/-- The claims of a history, and what they leave. -/
structure ClaimOrder (env : Env) (labels : List Label) (s : State) : Prop where
  behind : ∀ claimed ∈ labels.filterMap claimOf, claimed.id < s.nextJobId ∧
    ∀ key, orderingKeyOf env claimed.arguments = some key →
      ∀ job, Member env s claimed.kind key job → job.live = true → claimed.id ≤ job.id
  inOrder : (labels.filterMap claimOf).Pairwise fun a b => a.kind = b.kind →
    (∃ key, orderingKeyOf env a.arguments = some key ∧ orderingKeyOf env b.arguments = some key) →
    a.id ≤ b.id

/-- The members of an order after a step were members before, or are new. -/
theorem Member.before {kind key : String} {job : Job} (hwf : WellFormed s)
    (hstep : SerialStep env s (op, response) s') (h : Member env s' kind key job) :
    (∃ job₀, Member env s kind key job₀ ∧ job₀.id = job.id ∧
      (job.live = true → job₀.live = true)) ∨ s.nextJobId ≤ job.id := by
  obtain ⟨hin, hkind, hkey⟩ := h
  have hold : job ∈ s.jobs ∨ job ∈ s.pendingJobs.map Prod.snd →
      (∃ job₀, Member env s kind key job₀ ∧ job₀.id = job.id ∧
        (job.live = true → job₀.live = true)) ∨ s.nextJobId ≤ job.id :=
    fun hin => .inl ⟨job, ⟨hin, hkind, hkey⟩, rfl, id⟩
  rcases step_cases hstep.2 with ⟨statement, hstatement, -, rfl⟩ | ⟨-, htransact⟩
  · rcases hin with hin | hin
    · obtain ⟨job₀, hjob₀, heq⟩ := List.mem_filterMap.mp hin
      have heffect : Effect env s op job₀ (some job) := heq ▸ statement_effect hstatement job₀
      obtain ⟨hsamekey, hsamelive, -⟩ := heffect.order hstep.1 hwf hjob₀
      exact .inl ⟨job₀, ⟨.inl hjob₀, heffect.keeps.2.1.symm.trans hkind,
        hsamekey.symm.trans hkey⟩, heffect.keeps.1.symm, hsamelive⟩
    · exact hold (.inr hin)
  · rcases transact_jobsChange htransact with ⟨elapsed, -, rfl⟩ | ⟨-, hchange⟩
    · exact hold hin
    · cases hchange with
      | frame _ hjobs hpending => exact hold (by rwa [hjobs, hpending] at hin)
      | inserted t spec _ hjobs hpending =>
        rw [hjobs, hpending, List.map_append, List.mem_append, ← or_assoc] at hin
        rcases hin with hin | hin
        · exact hold hin
        · obtain rfl := List.mem_singleton.mp hin
          exact .inr le_rfl
      | committed t _ hjobs hpending =>
        rw [hjobs, hpending, List.mem_append, or_assoc] at hin
        rcases hin with hin | hin | hin
        · exact hold (.inl hin)
        · exact hold (.inr (List.mem_map_of_mem (mem_own.mp hin)))
        · obtain ⟨row, hrow, rfl⟩ := List.mem_map.mp hin
          exact hold (.inr (List.mem_map_of_mem (mem_others.mp hrow).1))
      | rolledBack t _ hjobs hpending =>
        rw [hjobs, hpending] at hin
        rcases hin with hin | hin
        · exact hold (.inl hin)
        · obtain ⟨row, hrow, rfl⟩ := List.mem_map.mp hin
          exact hold (.inr (List.mem_map_of_mem (mem_others.mp hrow).1))

theorem nextJobId_mono (hstep : Step env s (op, response) s') : s.nextJobId ≤ s'.nextJobId := by
  rcases step_cases hstep with ⟨statement, -, -, rfl⟩ | ⟨-, htransact⟩
  · exact le_rfl
  · rcases transact_jobsChange htransact with ⟨elapsed, -, rfl⟩ | ⟨-, hchange⟩
    · exact le_rfl
    · cases hchange with
      | frame _ _ _ hnext => exact hnext
      | inserted _ _ _ _ _ hnext => exact hnext ▸ Nat.le_succ _
      | committed _ _ _ _ hnext => exact hnext.ge
      | rolledBack _ _ _ _ hnext => exact hnext.ge

theorem ClaimOrder.step (h : ClaimOrder env labels s) (hfifo : Fifo env s) (hwf : WellFormed s)
    (hstep : SerialStep env s (op, response) s') :
    ClaimOrder env (labels ++ [(op, response)]) s' := by
  have hnext := nextJobId_mono hstep.2
  have hold : ∀ claimed ∈ labels.filterMap claimOf, claimed.id < s'.nextJobId ∧
      ∀ key, orderingKeyOf env claimed.arguments = some key →
        ∀ job, Member env s' claimed.kind key job → job.live = true → claimed.id ≤ job.id := by
    intro claimed hclaimed
    obtain ⟨hlt, hbehind⟩ := h.behind claimed hclaimed
    refine ⟨hlt.trans_le hnext, fun key hkey job hjob hlive => ?_⟩
    rcases hjob.before hwf hstep with ⟨job₀, hjob₀, hid, hlive₀⟩ | hnew
    · exact hid ▸ hbehind key hkey job₀ hjob₀ (hlive₀ hlive)
    · exact (hlt.trans_le hnew).le
  cases hnew : claimOf (op, response) with
  | none =>
    have hlist : (labels ++ [(op, response)]).filterMap claimOf = labels.filterMap claimOf := by
      simp [hnew]
    exact ⟨hlist ▸ hold, hlist ▸ h.inOrder⟩
  | some claimed =>
    have hlist : (labels ++ [(op, response)]).filterMap claimOf =
        labels.filterMap claimOf ++ [claimed] := by
      simp [hnew]
    obtain ⟨leaseOwner, lanes, leaseMilliseconds, skipped, found, rfl, hfound, rfl, -⟩ :=
      claimOf_eq_some hnew hstep.2
    obtain ⟨hmem, hclaimable⟩ := candidate_mem hfound
    constructor
    · rw [hlist]
      intro other hother
      rcases List.mem_append.mp hother with hother | hother
      · exact hold other hother
      · obtain rfl := List.mem_singleton.mp hother
        have hlt : found.id < s.nextJobId := hwf.job_lt hmem
        refine ⟨hlt.trans_le hnext, fun key hkey job hjob hlive => ?_⟩
        rcases hjob.before hwf hstep with ⟨job₀, hjob₀, hid, hlive₀⟩ | hfresh
        · have hfirst : found.id ≤ job₀.id :=
            hfifo.first found hfound hkey hjob₀ (hlive₀ hlive)
          exact hid ▸ hfirst
        · exact (hlt.trans_le hfresh).le
    · rw [hlist, List.pairwise_append]
      refine ⟨h.inOrder, List.pairwise_singleton _ _, fun a ha b hb hkind hkeys => ?_⟩
      obtain rfl := List.mem_singleton.mp hb
      obtain ⟨key, hkeya, hkeyb⟩ := hkeys
      exact (h.behind a ha).2 key hkeya found ⟨.inl hmem, hkind.symm, hkeyb⟩
        (claimable_iff.mp hclaimable).1

theorem claimOrder_of_run {start : ℤ} (h : Run (SerialStep env) (initial start) labels s) :
    ClaimOrder env labels s :=
  h.invariant (P := ClaimOrder env)
    ⟨fun _ hmem => absurd hmem List.not_mem_nil, .nil⟩
    fun _ _ _ _ run hclaims hstep =>
      hclaims.step (fifo_of_run run) (wellFormed_of_run (run_of_serial run)) hstep

/-- Jobs that are committed later come later in their order. -/
theorem commit_order {start : ℤ} {labels' : List Label}
    (h : Run (SerialStep env) (initial start) labels s)
    (h' : Run (SerialStep env) s labels' s') {earlier : Job} (hearlier : earlier ∈ s.jobs)
    {key : String} (hkey : earlier.orderingKey env = some key) :
    ∀ job, Member env s' earlier.kind key job → job.id ∉ s.jobs.map Job.id →
      earlier.id < job.id := by
  have hfifo := fifo_of_run h
  have hlt := (wellFormed_of_run (run_of_serial h)).job_lt hearlier
  refine And.right (h'.invariant
    (P := fun _ s' => s.nextJobId ≤ s'.nextJobId ∧ ∀ job, Member env s' earlier.kind key job →
      job.id ∉ s.jobs.map Job.id → earlier.id < job.id) ⟨le_rfl, ?_⟩ ?_)
  · rintro job ⟨hin | hin, hkind, hjobkey⟩ hnew
    · exact absurd (List.mem_map_of_mem hin) hnew
    · obtain ⟨row, hrow, rfl⟩ := List.mem_map.mp hin
      exact hfifo.later row hrow earlier hearlier ⟨hkind.symm, key, hkey, hjobkey⟩
  · rintro labels₁ s₁ ⟨op, response⟩ s₂ run ⟨hnext, hbehind⟩ hstep
    have hwf := wellFormed_of_run ((run_of_serial h).append (run_of_serial run))
    refine ⟨hnext.trans (nextJobId_mono hstep.2), fun job hjob hnew => ?_⟩
    rcases hjob.before hwf hstep with ⟨job₀, hjob₀, hid, -⟩ | hfresh
    · exact hid ▸ hbehind job₀ hjob₀ (hid ▸ hnew)
    · exact hlt.trans_le (hnext.trans hfresh)

/-- What holds of ordered jobs in a state with its history. -/
structure PerKeyFifo (env : Env) (labels : List Label) (s : State) : Prop where
  /-- The job of a claim is the first live member of its order, committed or not. -/
  claim : ∀ op response s' claimed key, SerialStep env s (op, response) s' →
    claimOf (op, response) = some claimed → orderingKeyOf env claimed.arguments = some key →
    ∀ job, Member env s claimed.kind key job → job.live = true → ¬ job.id < claimed.id
  /-- No two jobs of one order are leased at the same time. -/
  exclusive : ∀ a ∈ s.jobs, ∀ b ∈ s.jobs, SameOrder env a b → a.leaseOwner ≠ none →
    b.leaseOwner ≠ none → a = b
  /-- Jobs of one order are claimed in the order of their ids, -/
  inOrder : (labels.filterMap claimOf).Pairwise fun a b => a.kind = b.kind →
    (∃ key, orderingKeyOf env a.arguments = some key ∧ orderingKeyOf env b.arguments = some key) →
    a.id ≤ b.id
  /-- which is the order in which their transactions commit. -/
  committed : ∀ labels' s', Run (SerialStep env) s labels' s' → ∀ earlier ∈ s.jobs,
    ∀ later ∈ s'.jobs, later.id ∉ s.jobs.map Job.id → SameOrder env earlier later →
    earlier.id < later.id

theorem live_of_leased {job : Job} (h : job.leaseOwner ≠ none) : job.live = true := by
  cases hstatus : job.status with
  | leased owner expiresAt => simp [Job.live, Job.deadAt, hstatus]
  | waiting | dead => simp [Job.leaseOwner, hstatus] at h

/-- The steps of a list of operations are serialised. -/
def serialisedAlong (env : Env) (s : State) : List Op → Bool
  | [] => true
  | op :: ops => serialised env s op &&
      match step env s op with
      | some (s', _) => serialisedAlong env s' ops
      | none => true

theorem exec_serial : ∀ {s : State} {ops : List Op} {result : List Label × State},
    exec env s ops = some result → serialisedAlong env s ops = true →
      Run (SerialStep env) s result.1 result.2
  | _, [], _, h, _ => by
    obtain rfl := Option.some.inj h
    exact .nil
  | s, op :: ops, result, h, hserial => by
    obtain ⟨⟨s', response⟩, hstep, h⟩ := Option.bind_eq_some_iff.mp h
    obtain ⟨⟨labels, s''⟩, hrest, h⟩ := Option.bind_eq_some_iff.mp h
    obtain rfl := Option.some.inj h
    rw [serialisedAlong, hstep, Bool.and_eq_true] at hserial
    exact .cons ⟨hserial.1, hstep⟩ (exec_serial hrest hserial.2)

def inboxSpec : JobSpec := ⟨.ingress, "rustodon.activitypub.process_inbox", .object [], none, 0, 25⟩

/-- Two activities of one actor: the second waits for the first, whoever asks for it. -/
def twoActivities : List Op :=
  [.enqueueOrdered 0 inboxSpec [1], .next 0, .next 0, .next 0, .commit 0,
    .enqueueOrdered 1 inboxSpec [1], .next 1, .next 1, .next 1, .commit 1, .tick 1000000,
    .claim "a" [.ingress] 1000 [], .claim "b" [.ingress] 1000 [], .complete 1 "a" 1,
    .claim "b" [.ingress] 1000 []]

/-- The lock is needed. A marker that is deleted between the first two statements of an enqueue
    leaves the second enqueue below without one, and two jobs of one order are leased. -/
example :
    let enqueue := fun t => [Op.enqueueOrdered t inboxSpec [1], .next t, .next t, .next t]
    let ops := enqueue 0 ++ [.commit 0, .claim "a" [.ingress] 1000 [], .complete 1 "a" 1,
      .tick 3000000000000, .enqueueOrdered 1 inboxSpec [1], .pruneMarker (activitypubInboxOrderingKind, [1]),
      .next 1, .next 1] ++ enqueue 2 ++ [.commit 2, .claim "a" [.ingress] 1000 [], .next 1,
      .commit 1, .claim "b" [.ingress] 1000 []]
    serialisedAlong epochEnv (initial 0) ops = false ∧
      ((exec epochEnv (initial 0) ops).map fun result =>
        result.2.jobs.map fun job => (job.id, job.leaseOwner)) =
          some [(3, some "a"), (2, some "b")] := by
  decide

end Rustodon.Queue
