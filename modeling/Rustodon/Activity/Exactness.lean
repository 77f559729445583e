import Mathlib.Algebra.Ring.Nat
import Rustodon.Activity.Membership

/-! @src activity.rs | name:Exact members | scheme:row locks | family:activity

    As long as the clock does not go back, the members of a bucket that has not expired are the users
    since its last creation or renewal. Whatever the clock does, a pruning deletes at most 1000
    members, all of them of buckets that it has found expired. -/

namespace Rustodon.Activity
open Schemes.Runs

/-! ### Locks -/

namespace State

variable {s : State} {tx tx' : TxnId} {d d' : Day} {written : Rows} {recorded : List Record}

theorem lockOf_eq_some {lock : Lock} : s.lockOf tx d = some lock ↔
    s.locks d = some lock ∧ lock.holder = tx := by
  rw [lockOf, Option.filter_eq_some_iff, decide_eq_true_iff]

theorem lockOf_of_not_blocked (h : s.blocked tx d = false) (hne : tx' ≠ tx) :
    s.lockOf tx' d = none := by
  rw [lockOf]
  cases hlock : s.locks d with
  | none => rfl
  | some lock =>
    have hholder : lock.holder = tx := by simpa [blocked, hlock] using h
    rw [Option.filter_some, if_neg]
    rw [decide_eq_true_iff, hholder]
    exact hne.symm

theorem not_blocked_of_lockOf {lock : Lock} (h : s.lockOf tx d = some lock) :
    s.blocked tx d = false := by
  obtain ⟨hlock, hholder⟩ := lockOf_eq_some.mp h
  simp [blocked, hlock, hholder]

theorem lockOf_setStage (stage : Stage) : (s.setStage tx' stage).lockOf tx = s.lockOf tx := rfl

theorem stages_setStage (stage : Stage) : (s.setStage tx stage).stages tx = stage :=
  Function.update_self ..

theorem stages_setStage_of_ne (h : tx' ≠ tx) (stage : Stage) :
    (s.setStage tx stage).stages tx' = s.stages tx' :=
  Function.update_of_ne h ..

theorem lockOf_hold : (s.hold tx d written recorded).lockOf tx =
    Function.update (s.lockOf tx) d (some ⟨tx, written, recorded⟩) := by
  funext d'
  by_cases hd : d' = d
  · subst hd
    simp [lockOf, hold]
  · simp [lockOf, hold, hd]

theorem lockOf_hold_of_ne (hblocked : s.blocked tx d = false) (h : tx' ≠ tx) :
    (s.hold tx d written recorded).lockOf tx' = s.lockOf tx' := by
  funext d'
  by_cases hd : d' = d
  · subst hd
    rw [lockOf_of_not_blocked hblocked h]
    simp [lockOf, hold, h.symm]
  · simp [lockOf, hold, hd]

/-- Locks that have been released are those of the transaction alone. -/
theorem lockOf_released {s' : State}
    (h : s'.locks = fun d => if (s.lockOf tx d).isSome then none else s.locks d) :
    s'.lockOf tx = fun _ => none := by
  funext d
  have hlocks := congrFun h d
  cases hlock : s.lockOf tx d with
  | some lock =>
    rw [hlock] at hlocks
    rw [lockOf, hlocks]
    rfl
  | none =>
    rw [hlock] at hlocks
    rw [lockOf, hlocks]
    exact hlock

theorem lockOf_released_of_ne {s' : State}
    (h : s'.locks = fun d => if (s.lockOf tx d).isSome then none else s.locks d) (hne : tx' ≠ tx) :
    s'.lockOf tx' = s.lockOf tx' := by
  funext d
  have hlocks := congrFun h d
  cases hlock : s.lockOf tx d with
  | some lock =>
    rw [hlock] at hlocks
    rw [lockOf_of_not_blocked (not_blocked_of_lockOf hlock) hne, lockOf, hlocks]
    rfl
  | none =>
    rw [hlock] at hlocks
    rw [lockOf, hlocks, lockOf]
    rfl

theorem rowsFor_of_lockOf {lock : Lock} (h : s.lockOf tx d = some lock) :
    s.rowsFor tx d = lock.written := by
  rw [rowsFor, h]
  rfl

theorem recordedFor_of_lockOf {lock : Lock} (h : s.lockOf tx d = some lock) :
    s.recordedFor tx d = lock.recorded := by
  rw [recordedFor, h]
  rfl

theorem rowsFor_of_none (h : s.lockOf tx d = none) : s.rowsFor tx d = s.rows d := by
  rw [rowsFor, h]
  rfl

theorem recordedFor_of_none (h : s.lockOf tx d = none) : s.recordedFor tx d = [] := by
  rw [recordedFor, h]
  rfl

end State

/-! ### Exactness -/

/-- Without a bucket there are no members, and an unexpired one has those of the history. -/
structure Exact (rows : Rows) (history : List Record) (clock : ℤ) : Prop where
  empty : rows.expiresAt = none → rows.members = []
  users : ∀ e, rows.expiresAt = some e → clock < e → ∀ u, u ∈ rows.members ↔ u ∈ usersSince history

theorem Exact.later {rows : Rows} {history : List Record} {clock clock' : ℤ}
    (h : Exact rows history clock) (hle : clock ≤ clock') : Exact rows history clock' :=
  ⟨h.empty, fun e he hlt => h.users e he (by omega)⟩

/-- What holds of a transaction by its stage. -/
structure TxnInv (history : Day → List Record) (clock : ℤ) (locks : Day → Option Lock)
    (stage : Stage) : Prop where
  idle : stage = .idle → ∀ d, locks d = none
  exact : ∀ d lock, locks d = some lock → (∃ user now progress,
    stage = .recording user now true progress ∧ d = dateOf now) ∨
      Exact lock.written (history d ++ lock.recorded) clock
  created : ∀ user now progress, stage = .recording user now true progress →
    ∃ lock, locks (dateOf now) = some lock ∧ lock.written.members = [] ∧
      lock.written.expiresAt.isSome = true
  writing : ∀ user now created e, stage = .recording user now created (.write e) →
    ∃ lock, locks (dateOf now) = some lock ∧ lock.written.expiresAt = some e
  pruning : ∀ selectedAt selected days n, stage = .pruning selectedAt selected days n →
    selectedAt ≤ clock ∧ days.Nodup ∧ ∀ d ∈ days, ∃ lock, locks d = some lock ∧
      ∃ e, lock.written.expiresAt = some e ∧ e ≤ selectedAt

structure Inv (s : State) : Prop where
  rows : ∀ d, Exact (s.rows d) (s.history d) s.clock
  txns : ∀ tx, TxnInv s.history s.clock (s.lockOf tx) (s.stages tx)

theorem TxnInv.later {history : Day → List Record} {clock clock' : ℤ} {locks : Day → Option Lock}
    {stage : Stage} (h : TxnInv history clock locks stage) (hle : clock ≤ clock') :
    TxnInv history clock' locks stage where
  idle := h.idle
  exact d lock hlock := (h.exact d lock hlock).imp id fun hexact => hexact.later hle
  created := h.created
  writing := h.writing
  pruning selectedAt selected days n hstage := by
    obtain ⟨hclock, hrest⟩ := h.pruning selectedAt selected days n hstage
    exact ⟨by omega, hrest⟩

/-- A step that publishes nothing concerns its own transaction. -/
theorem Inv.private {s s' : State} (hi : Inv s) (tx : TxnId) (hclock : s.clock ≤ s'.clock)
    (hrows : s'.rows = s.rows) (hhistory : s'.history = s.history)
    (hother : ∀ tx' ≠ tx, s'.lockOf tx' = s.lockOf tx' ∧ s'.stages tx' = s.stages tx')
    (htx : TxnInv s.history s'.clock (s'.lockOf tx) (s'.stages tx)) : Inv s' where
  rows d := by
    rw [hrows, hhistory]
    exact (hi.rows d).later hclock
  txns tx' := by
    rw [hhistory]
    by_cases hne : tx' = tx
    · exact hne ▸ htx
    · obtain ⟨hlocks, hstage⟩ := hother tx' hne
      rw [hlocks, hstage]
      exact (hi.txns tx').later hclock

theorem inv_initial (clock : ℤ) : Inv (initial clock) where
  rows _ := ⟨fun _ => rfl, nofun⟩
  txns _ := ⟨fun _ _ => rfl, nofun, nofun, nofun, nofun⟩

section Steps

variable {s s' : State} {tx : TxnId}

/-- A stage without anything of its own. -/
theorem TxnInv.running {history : Day → List Record} {clock : ℤ} {locks : Day → Option Lock}
    (h : ∀ d lock, locks d = some lock → Exact lock.written (history d ++ lock.recorded) clock) :
    TxnInv history clock locks .running where
  idle := nofun
  exact d lock hlock := .inr (h d lock hlock)
  created := nofun
  writing := nofun
  pruning := nofun

/-- The rows that a transaction sees are exact, unless it has just inserted the bucket. -/
theorem Inv.exact_rowsFor (hi : Inv s) {d : Day}
    (h : ∀ user now progress, s.stages tx = .recording user now true progress → d ≠ dateOf now) :
    Exact (s.rowsFor tx d) (s.history d ++ s.recordedFor tx d) s.clock := by
  cases hlock : s.lockOf tx d with
  | none =>
    rw [State.rowsFor_of_none hlock, State.recordedFor_of_none hlock, List.append_nil]
    exact hi.rows d
  | some lock =>
    rw [State.rowsFor_of_lockOf hlock, State.recordedFor_of_lockOf hlock]
    rcases (hi.txns tx).exact d lock hlock with ⟨user, now, progress, hstage, hd⟩ | hexact
    · exact absurd hd (h user now progress hstage)
    · exact hexact

theorem begin_inv (hi : Inv s) (h : s.stages tx = .idle) : Inv (s.setStage tx .running) := by
  refine hi.private tx le_rfl rfl rfl
    (fun tx' hne => ⟨rfl, State.stages_setStage_of_ne hne .running⟩) ?_
  rw [State.stages_setStage, State.lockOf_setStage]
  refine .running fun d lock hlock => ?_
  rw [(hi.txns tx).idle h d] at hlock
  cases hlock

theorem record_inv (hi : Inv s) (h : s.stages tx = .running) (user now : ℤ) :
    Inv (s.setStage tx (.recording user now false .insert)) := by
  refine hi.private tx le_rfl rfl rfl
    (fun tx' hne => ⟨rfl, State.stages_setStage_of_ne hne _⟩) ?_
  rw [State.stages_setStage, State.lockOf_setStage]
  refine ⟨nofun, fun d lock hlock => ?_, nofun, nofun, nofun⟩
  rcases (hi.txns tx).exact d lock hlock with ⟨user', now', progress, hstage, -⟩ | hexact
  · rw [h] at hstage
    cases hstage
  · exact .inr hexact

/-- The locks of days apart from the one that a recording has inserted. -/
theorem TxnInv.exact_of_ne {history : Day → List Record} {clock : ℤ} {locks : Day → Option Lock}
    {user now : ℤ} {created : Bool} {progress : Progress} {d : Day} {lock : Lock}
    (h : TxnInv history clock locks (.recording user now created progress))
    (hlock : locks d = some lock) (hne : d ≠ dateOf now) :
    Exact lock.written (history d ++ lock.recorded) clock := by
  rcases h.exact d lock hlock with ⟨user', now', progress', hstage, hd⟩ | hexact
  · obtain ⟨-, rfl, -⟩ := Stage.recording.inj hstage
    exact absurd hd hne
  · exact hexact

theorem insertBucket_inv (hi : Inv s) (h : s.insertBucket tx = some s') : Inv s' := by
  rw [State.insertBucket] at h
  split at h
  swap
  · cases h
  rename_i user now created hstage
  have htx := hi.txns tx
  rw [hstage] at htx
  split_ifs at h with hsome hblocked
  · obtain rfl := Option.some.inj h
    refine hi.private tx le_rfl rfl rfl
      (fun tx' hne => ⟨rfl, State.stages_setStage_of_ne hne _⟩) ?_
    rw [State.stages_setStage, State.lockOf_setStage]
    refine ⟨nofun, fun d lock hlock => ?_, fun user' now' progress hnew => ?_, nofun, nofun⟩
    · rcases htx.exact d lock hlock with ⟨user', now', progress, hold, hd⟩ | hexact
      · obtain ⟨rfl, rfl, rfl, -⟩ := Stage.recording.inj hold
        exact .inl ⟨user, now, _, rfl, hd⟩
      · exact .inr hexact
    · obtain ⟨rfl, rfl, rfl, -⟩ := Stage.recording.inj hnew
      exact htx.created user now _ rfl
  · obtain rfl := Option.some.inj h
    rw [Bool.not_eq_true] at hblocked
    have hmembers : (s.rowsFor tx (dateOf now)).members = [] := by
      rw [Bool.not_eq_true, Option.isSome_eq_false_iff, Option.isNone_iff_eq_none] at hsome
      refine (hi.exact_rowsFor fun user' now' progress hold => ?_).empty hsome
      rw [hstage] at hold
      obtain ⟨rfl, rfl, rfl, -⟩ := Stage.recording.inj hold
      obtain ⟨lock, hlock, -, hbucket⟩ := htx.created user now _ rfl
      rw [State.rowsFor_of_lockOf hlock] at hsome
      rw [hsome] at hbucket
      cases hbucket
    refine hi.private tx le_rfl rfl rfl (fun tx' hne =>
      ⟨State.lockOf_hold_of_ne hblocked hne, State.stages_setStage_of_ne hne _⟩) ?_
    rw [State.stages_setStage, State.lockOf_setStage, State.lockOf_hold]
    refine ⟨nofun, fun d lock hlock => ?_, fun user' now' progress hnew => ?_, nofun, nofun⟩
    · by_cases hd : d = dateOf now
      · exact .inl ⟨user, now, _, rfl, hd⟩
      · rw [Function.update_of_ne hd] at hlock
        exact .inr (htx.exact_of_ne hlock hd)
    · obtain ⟨-, rfl, -⟩ := Stage.recording.inj hnew
      exact ⟨_, Function.update_self .., hmembers, rfl⟩

theorem selectBucket_inv (hi : Inv s) (h : s.selectBucket tx = some s') : Inv s' := by
  rw [State.selectBucket] at h
  split at h
  swap
  · cases h
  rename_i user now created hstage
  have htx := hi.txns tx
  rw [hstage] at htx
  split_ifs at h with hblocked
  rw [Bool.not_eq_true] at hblocked
  split at h
  · obtain rfl := Option.some.inj h
    refine hi.private tx le_rfl rfl rfl
      (fun tx' hne => ⟨rfl, State.stages_setStage_of_ne hne _⟩) ?_
    rw [State.stages_setStage, State.lockOf_setStage]
    refine ⟨nofun, fun d lock hlock => ?_, fun user' now' progress hnew => ?_, nofun, nofun⟩
    · rcases htx.exact d lock hlock with ⟨user', now', progress, hold, hd⟩ | hexact
      · obtain ⟨rfl, rfl, rfl, -⟩ := Stage.recording.inj hold
        exact .inl ⟨user, now, _, rfl, hd⟩
      · exact .inr hexact
    · obtain ⟨rfl, rfl, rfl, -⟩ := Stage.recording.inj hnew
      exact htx.created user now _ rfl
  · rename_i expiry hexpiry
    obtain rfl := Option.some.inj h
    refine hi.private tx le_rfl rfl rfl (fun tx' hne =>
      ⟨State.lockOf_hold_of_ne hblocked hne, State.stages_setStage_of_ne hne _⟩) ?_
    rw [State.stages_setStage, State.lockOf_setStage, State.lockOf_hold]
    refine ⟨nofun, fun d lock hlock => ?_, fun user' now' progress hnew => ?_,
      fun user' now' created' e hnew => ?_, nofun⟩
    · by_cases hd : d = dateOf now
      · subst hd
        rw [Function.update_self] at hlock
        obtain rfl := Option.some.inj hlock
        cases created with
        | true => exact .inl ⟨user, now, _, rfl, rfl⟩
        | false =>
          refine .inr (hi.exact_rowsFor fun user' now' progress hold => ?_)
          rw [hstage] at hold
          cases hold
      · rw [Function.update_of_ne hd] at hlock
        exact .inr (htx.exact_of_ne hlock hd)
    · obtain ⟨-, rfl, rfl, -⟩ := Stage.recording.inj hnew
      obtain ⟨lock, hlock, hmembers, hbucket⟩ := htx.created user now _ rfl
      refine ⟨_, Function.update_self .., ?_, ?_⟩
      · rwa [State.rowsFor_of_lockOf hlock]
      · rwa [State.rowsFor_of_lockOf hlock]
    · obtain ⟨-, rfl, -, hprogress⟩ := Stage.recording.inj hnew
      obtain rfl := Progress.write.inj hprogress
      exact ⟨_, Function.update_self .., hexpiry⟩

theorem usersSince_concat (history : List Record) (r : Record) :
    usersSince (history ++ [r]) = if r.fresh then [r.user] else r.user :: usersSince history := by
  rw [usersSince, List.foldl_append]
  rfl

theorem mem_addMember {user u : ℤ} {members : List ℤ} :
    u ∈ State.addMember user members ↔ u = user ∨ u ∈ members := by
  rw [State.addMember]
  split_ifs with hmem
  · constructor
    · exact .inr
    · rintro (rfl | h)
      · exact hmem
      · exact h
  · exact List.mem_orderedInsert (· ≤ ·)

theorem writeMember_inv (hi : Inv s) {clock : ℤ} (hclock : s.clock ≤ clock)
    (h : s.writeMember tx clock = some s') : Inv s' := by
  rw [State.writeMember] at h
  split at h
  swap
  · cases h
  rename_i user now created previousExpiry hstage
  have htx := hi.txns tx
  rw [hstage] at htx
  obtain ⟨lock, hlock, hexpiry⟩ := htx.writing user now created previousExpiry rfl
  have hblocked := State.not_blocked_of_lockOf hlock
  obtain rfl := Option.some.inj h
  refine hi.private tx hclock rfl rfl (fun tx' hne =>
    ⟨State.lockOf_hold_of_ne (s := { s with clock := clock }) hblocked hne,
      State.stages_setStage_of_ne hne _⟩) ?_
  rw [State.stages_setStage, State.lockOf_setStage, State.lockOf_hold]
  refine .running fun d lock' hlock' => ?_
  by_cases hd : d = dateOf now
  · subst hd
    rw [Function.update_self] at hlock'
    obtain rfl := Option.some.inj hlock'
    refine ⟨nofun, fun e _ _ u => ?_⟩
    simp only
    rw [mem_addMember, ← List.append_assoc, usersSince_concat, Record.fresh]
    simp only
    rw [State.rowsFor_of_lockOf hlock, State.recordedFor_of_lockOf hlock]
    by_cases hexpired : previousExpiry ≤ clock
    · simp [hexpired]
    · cases created with
      | true =>
        obtain ⟨lock', hlock', hmembers, -⟩ := htx.created user now _ rfl
        obtain rfl := Option.some.inj (hlock.symm.trans hlock')
        simp [hmembers]
      | false =>
        have hexact : Exact lock.written (s.history (dateOf now) ++ lock.recorded) s.clock := by
          rcases htx.exact _ lock hlock with ⟨_, _, _, hcreated, -⟩ | hexact
          · cases hcreated
          · exact hexact
        have husers := hexact.users previousExpiry hexpiry (by omega) u
        simp [hexpired, husers]
  · rw [Function.update_of_ne hd] at hlock'
    exact (htx.exact_of_ne hlock' hd).later hclock

/-- The days that a pruning selects are locked by it alone. -/
theorem lockOf_selectDays {days : List Day} {clock : ℤ}
    (hfree : ∀ d ∈ days, s.locks d = none) (tx' : TxnId) :
    State.lockOf { s with
      clock := clock
      locks := fun d => if d ∈ days then some ⟨tx, s.rows d, []⟩ else s.locks d } tx' = fun d =>
        if d ∈ days ∧ tx' = tx then some ⟨tx, s.rows d, []⟩ else s.lockOf tx' d := by
  funext d
  by_cases hd : d ∈ days
  · by_cases hne : tx' = tx
    · simp [State.lockOf, hd, hne]
    · have hne' : tx ≠ tx' := fun heq => hne heq.symm
      simp [State.lockOf, hd, hne, hne', hfree d hd]
  · simp [State.lockOf, hd]

theorem selectDays_inv (hi : Inv s) {clock : ℤ} (hclock : s.clock ≤ clock) {days : List Day}
    (h : s.selectDays tx clock days = some s') : Inv s' := by
  rw [State.selectDays] at h
  split_ifs at h with hguard
  obtain ⟨hidle, hnodup, -, hdays⟩ := hguard
  have hlocks := @lockOf_selectDays s tx days clock fun d hd => (hdays d hd).1
  obtain rfl := Option.some.inj h
  refine hi.private tx hclock rfl rfl (fun tx' hne => ⟨?_, State.stages_setStage_of_ne hne _⟩) ?_
  · rw [State.lockOf_setStage, hlocks tx']
    simp [hne]
  rw [State.stages_setStage, State.lockOf_setStage, hlocks tx]
  refine ⟨nofun, fun d lock hlock => ?_, nofun, nofun, fun selectedAt selected days' n hstage => ?_⟩
  · split_ifs at hlock with hd
    · obtain rfl := Option.some.inj hlock
      have hexact := (hi.rows d).later hclock
      rw [← List.append_nil (s.history d)] at hexact
      exact .inr hexact
    · rw [(hi.txns tx).idle hidle d] at hlock
      cases hlock
  · obtain ⟨rfl, -, rfl, -⟩ := Stage.pruning.inj hstage
    refine ⟨le_rfl, hnodup, fun d hd => ⟨_, if_pos ⟨hd, rfl⟩, ?_⟩⟩
    obtain ⟨e, he, hle⟩ := (Option.any_eq_true _ _).mp (hdays d hd).2
    exact ⟨e, he, of_decide_eq_true hle⟩

theorem pruned_spec (rows : Rows) (remaining : ℕ) (clock : ℤ) :
    (State.pruned rows remaining clock).members = rows.members.drop remaining ∧
      ((State.pruned rows remaining clock).expiresAt = rows.expiresAt ∨
        (State.pruned rows remaining clock).expiresAt = none ∧
          (State.pruned rows remaining clock).members = []) := by
  rw [State.pruned]
  split_ifs with hempty
  · exact ⟨rfl, .inr ⟨rfl, hempty.1⟩⟩
  · exact ⟨rfl, .inl rfl⟩

theorem pruneDay_inv (hi : Inv s) {clock : ℤ} (hclock : s.clock ≤ clock)
    (h : s.pruneDay tx clock = some s') : Inv s' := by
  rw [State.pruneDay] at h
  split at h
  swap
  · cases h
  rename_i selectedAt selected d days remaining hstage
  have htx := hi.txns tx
  rw [hstage] at htx
  obtain ⟨hat, hnodup, hdays⟩ := htx.pruning selectedAt selected (d :: days) remaining rfl
  rw [List.nodup_cons] at hnodup
  obtain ⟨lock, hlock, e, he, hle⟩ := hdays d List.mem_cons_self
  have hblocked := State.not_blocked_of_lockOf hlock
  obtain ⟨hmembers, hexpiry⟩ := pruned_spec (s.rowsFor tx d) remaining clock
  rw [State.rowsFor_of_lockOf hlock] at hmembers hexpiry
  obtain rfl := Option.some.inj h
  refine hi.private tx hclock rfl rfl (fun tx' hne =>
    ⟨State.lockOf_hold_of_ne (s := { s with clock := clock }) hblocked hne,
      State.stages_setStage_of_ne hne _⟩) ?_
  rw [State.stages_setStage, State.lockOf_setStage, State.lockOf_hold]
  refine ⟨nofun, fun d' lock' hlock' => ?_, nofun, nofun, fun at' selected' days' n hnew => ?_⟩
  · by_cases hd : d' = d
    · subst hd
      rw [Function.update_self] at hlock'
      obtain rfl := Option.some.inj hlock'
      refine .inr ⟨fun hnone => ?_, fun e' he' hlt => ?_⟩
      · rw [State.rowsFor_of_lockOf hlock] at hnone ⊢
        rcases hexpiry with hsame | ⟨-, hempty⟩
        · rw [hsame, he] at hnone
          cases hnone
        · exact hempty
      · rw [State.rowsFor_of_lockOf hlock] at he'
        rcases hexpiry with hsame | ⟨hnone, -⟩
        · rw [hsame, he] at he'
          obtain rfl := Option.some.inj he'
          exact absurd ((hle.trans hat).trans hclock) (not_le_of_gt hlt)
        · rw [hnone] at he'
          cases he'
    · rw [Function.update_of_ne hd] at hlock'
      rcases htx.exact d' lock' hlock' with ⟨_, _, _, hrecording, -⟩ | hexact
      · cases hrecording
      · exact .inr (hexact.later hclock)
  · obtain ⟨rfl, -, rfl, -⟩ := Stage.pruning.inj hnew
    have hrest : (∀ d' ∈ days, d' ≠ d) := fun d' hd' heq => hnodup.1 (heq ▸ hd')
    refine ⟨hat.trans hclock, ?_, fun d' hd' => ?_⟩
    · split_ifs
      · exact List.nodup_nil
      · exact hnodup.2
    · split_ifs at hd' with hdone
      · cases hd'
      · obtain ⟨lock', hlock', hlate⟩ := hdays d' (List.mem_cons_of_mem d hd')
        refine ⟨lock', ?_, hlate⟩
        rwa [Function.update_of_ne (hrest d' hd')]

/-- A transaction that can commit is in no recording. -/
theorem commit_cases (h : s.commit tx = some s') :
    s' = (s.publish tx).setStage tx .idle ∧
      (s.stages tx = .running ∨ ∃ selectedAt selected n, s.stages tx = .pruning selectedAt selected [] n) := by
  rw [State.commit] at h
  split at h
  · rename_i hstage
    exact ⟨(Option.some.inj h).symm, .inl hstage⟩
  · rename_i selectedAt selected n hstage
    exact ⟨(Option.some.inj h).symm, .inr ⟨selectedAt, selected, n, hstage⟩⟩
  · cases h

theorem commit_inv (hi : Inv s) (h : s.commit tx = some s') : Inv s' := by
  obtain ⟨rfl, hstage⟩ := commit_cases h
  have hlocks : (s.publish tx).lockOf tx = fun _ => none := State.lockOf_released rfl
  constructor
  · intro d
    refine hi.exact_rowsFor fun user now progress hrecording => ?_
    rw [hrecording] at hstage
    rcases hstage with hstage | ⟨_, _, _, hstage⟩
    · cases hstage
    · cases hstage
  · intro tx'
    by_cases hne : tx' = tx
    · subst hne
      rw [State.stages_setStage, State.lockOf_setStage, hlocks]
      exact ⟨fun _ _ => rfl, nofun, nofun, nofun, nofun⟩
    · have hlocks' : (s.publish tx).lockOf tx' = s.lockOf tx' :=
        State.lockOf_released_of_ne rfl hne
      rw [State.stages_setStage_of_ne hne, State.lockOf_setStage, hlocks']
      have htx := hi.txns tx'
      refine ⟨htx.idle, fun d lock hlock => ?_, htx.created, htx.writing, htx.pruning⟩
      have hfree : s.lockOf tx d = none :=
        State.lockOf_of_not_blocked (State.not_blocked_of_lockOf hlock) fun heq => hne heq.symm
      have hhistory : ((s.publish tx).setStage tx .idle).history d = s.history d := by
        have happend : ((s.publish tx).setStage tx .idle).history d =
            s.history d ++ s.recordedFor tx d := rfl
        rw [happend, State.recordedFor_of_none hfree, List.append_nil]
      rw [hhistory]
      exact htx.exact d lock hlock

theorem abort_inv (hi : Inv s) (h : s.abort tx = some s') : Inv s' := by
  rw [State.abort] at h
  split_ifs at h
  obtain rfl := Option.some.inj h
  have hlocks : (s.discard tx).lockOf tx = fun _ => none := State.lockOf_released rfl
  refine hi.private tx le_rfl rfl rfl (fun tx' hne =>
    ⟨State.lockOf_released_of_ne rfl hne, State.stages_setStage_of_ne hne _⟩) ?_
  rw [State.stages_setStage, State.lockOf_setStage, hlocks]
  exact ⟨fun _ _ => rfl, nofun, nofun, nofun, nofun⟩

theorem step_inv {op : Op} (hi : Inv s) (h : InOrder s op s') : Inv s' := by
  obtain ⟨hclock, h⟩ := h
  cases op with
  | begin tx =>
    rw [next] at h
    split_ifs at h with hidle
    obtain rfl := Option.some.inj h
    exact begin_inv hi hidle
  | record tx user now =>
    rw [next] at h
    split_ifs at h with hrunning
    obtain rfl := Option.some.inj h
    exact record_inv hi hrunning user now
  | insertBucket tx => exact insertBucket_inv hi h
  | selectBucket tx => exact selectBucket_inv hi h
  | writeMember tx clock => exact writeMember_inv hi (hclock clock rfl) h
  | selectDays tx clock days => exact selectDays_inv hi (hclock clock rfl) h
  | pruneDay tx clock => exact pruneDay_inv hi (hclock clock rfl) h
  | commit tx => exact commit_inv hi h
  | abort tx => exact abort_inv hi h

end Steps

theorem run_inv {clock : ℤ} {ops : List Op} {s : State} (h : Run InOrder (initial clock) ops s) :
    Inv s :=
  h.preserves (fun _ _ _ hi hstep => step_inv hi hstep) (inv_initial clock)

/-! ### Pruning -/

/-- A day that a pruning has found expired: some of its members are deleted, and the bucket only when
    none remain. -/
def Prunes (selectedAt : ℤ) (before after : Rows) : Prop :=
  ∃ e, before.expiresAt = some e ∧ e ≤ selectedAt ∧ after.members <:+ before.members ∧
    (after.expiresAt = some e ∨ after.expiresAt = none ∧ after.members = [])

/-- How many members of a day a lock has deleted. -/
def removed (rows : Rows) (lock : Option Lock) : ℕ :=
  rows.members.length - (lock.elim rows Lock.written).members.length

structure PruneInv (rows : Day → Rows) (locks : Day → Option Lock) (stage : Stage) : Prop where
  idle : stage = .idle → ∀ d, locks d = none
  writing : ∀ user now created e, stage = .recording user now created (.write e) →
    (locks (dateOf now)).isSome = true
  pruning : ∀ selectedAt selected days n, stage = .pruning selectedAt selected days n →
    selected.Nodup ∧ days.Nodup ∧
      (∀ d lock, locks d = some lock → d ∈ selected ∧ Prunes selectedAt (rows d) lock.written) ∧
      (∀ d ∈ days, d ∈ selected ∧ ∃ lock, locks d = some lock ∧ lock.written = rows d) ∧
      (selected.map fun d => removed (rows d) (locks d)).sum + n = 1000

/-- A sum in which one day changes. -/
theorem sum_update {f g : Day → ℕ} {d : Day} {days : List Day} (hnodup : days.Nodup) (hd : d ∈ days)
    (hsame : ∀ d' ≠ d, g d' = f d') : (days.map g).sum + f d = (days.map f).sum + g d := by
  induction days with
  | nil => cases hd
  | cons d' days ih =>
    rw [List.nodup_cons] at hnodup
    rw [List.map_cons, List.map_cons, List.sum_cons, List.sum_cons]
    by_cases heq : d' = d
    · subst heq
      have hrest : days.map g = days.map f :=
        List.map_congr_left fun d hmem => hsame d fun heq => hnodup.1 (heq ▸ hmem)
      rw [hrest]
      omega
    · have hmem : d ∈ days := (List.mem_cons.mp hd).resolve_left fun h => heq h.symm
      have hsum := ih hnodup.2 hmem
      rw [hsame d' heq]
      omega

/-- The transaction of a step, which alone changes its stage and its locks. -/
def Op.txn : Op → TxnId
  | .begin tx | .record tx _ _ | .insertBucket tx | .selectBucket tx | .writeMember tx _
  | .selectDays tx _ _ | .pruneDay tx _ | .commit tx | .abort tx => tx

section Pruning

variable {s s' : State} {tx : TxnId}

theorem prunes_refl {selectedAt e : ℤ} {rows : Rows} (he : rows.expiresAt = some e)
    (hle : e ≤ selectedAt) : Prunes selectedAt rows rows :=
  ⟨e, he, hle, List.suffix_rfl, .inl he⟩

theorem selectDays_prune (hi : PruneInv s.rows (s.lockOf tx) (s.stages tx)) {clock : ℤ}
    {days : List Day} (h : s.selectDays tx clock days = some s') :
    PruneInv s'.rows (s'.lockOf tx) (s'.stages tx) := by
  rw [State.selectDays] at h
  split_ifs at h with hguard
  obtain ⟨hidle, hnodup, -, hdays⟩ := hguard
  have hlocks := @lockOf_selectDays s tx days clock fun d hd => (hdays d hd).1
  obtain rfl := Option.some.inj h
  rw [State.stages_setStage, State.lockOf_setStage, hlocks tx]
  refine ⟨nofun, nofun, fun selectedAt selected days' n hstage => ?_⟩
  obtain ⟨rfl, rfl, rfl, rfl⟩ := Stage.pruning.inj hstage
  refine ⟨hnodup, hnodup, fun d lock hlock => ?_, fun d hd => ⟨hd, _, if_pos ⟨hd, rfl⟩, rfl⟩, ?_⟩
  · split_ifs at hlock with hd
    · obtain rfl := Option.some.inj hlock
      obtain ⟨e, he, hle⟩ := (Option.any_eq_true _ _).mp (hdays d hd.1).2
      exact ⟨hd.1, prunes_refl he (of_decide_eq_true hle)⟩
    · rw [hi.idle hidle d] at hlock
      cases hlock
  · have hzero : (days.map fun d => removed (s.rows d)
        (if d ∈ days ∧ tx = tx then some ⟨tx, s.rows d, []⟩ else s.lockOf tx d)).sum = 0 := by
      have hnone : ∀ d ∈ days, removed (s.rows d)
          (if d ∈ days ∧ tx = tx then some ⟨tx, s.rows d, []⟩ else s.lockOf tx d) = 0 := by
        intro d hd
        rw [if_pos ⟨hd, rfl⟩]
        exact Nat.sub_self _
      rw [List.map_congr_left hnone]
      simp
    exact congrArg (· + 1000) hzero

theorem pruneDay_prune (hi : PruneInv s.rows (s.lockOf tx) (s.stages tx)) {clock : ℤ}
    (h : s.pruneDay tx clock = some s') : PruneInv s'.rows (s'.lockOf tx) (s'.stages tx) := by
  rw [State.pruneDay] at h
  split at h
  swap
  · cases h
  rename_i selectedAt selected d days remaining hstage
  obtain ⟨hselected, hnodup, hlocks, hdays, hcount⟩ :=
    hi.pruning selectedAt selected (d :: days) remaining hstage
  rw [List.nodup_cons] at hnodup
  obtain ⟨hd, lock, hlock, hwritten⟩ := hdays d List.mem_cons_self
  obtain ⟨-, e, he, hle, -⟩ := hlocks d lock hlock
  have hrows := State.rowsFor_of_lockOf hlock
  rw [hwritten] at hrows
  obtain ⟨hmembers, hexpiry⟩ := pruned_spec (s.rows d) remaining clock
  have hlockOf : State.lockOf { s with clock := clock } tx = s.lockOf tx := rfl
  obtain rfl := Option.some.inj h
  rw [State.stages_setStage, State.lockOf_setStage, State.lockOf_hold, hrows, hlockOf]
  refine ⟨nofun, nofun, fun at' selected' days' n hnew => ?_⟩
  obtain ⟨rfl, rfl, rfl, rfl⟩ := Stage.pruning.inj hnew
  refine ⟨hselected, ?_, fun d' lock' hlock' => ?_, fun d' hd' => ?_, ?_⟩
  · split_ifs
    · exact List.nodup_nil
    · exact hnodup.2
  · by_cases heq : d' = d
    · subst heq
      rw [Function.update_self] at hlock'
      obtain rfl := Option.some.inj hlock'
      refine ⟨hd, e, he, hle, ?_, ?_⟩
      · exact hmembers ▸ List.drop_suffix remaining _
      · exact hexpiry.imp_left fun hsame => hsame.trans he
    · rw [Function.update_of_ne heq] at hlock'
      exact hlocks d' lock' hlock'
  · split_ifs at hd' with hdone
    · cases hd'
    · have hne : d' ≠ d := fun heq => hnodup.1 (heq ▸ hd')
      rw [Function.update_of_ne hne]
      exact hdays d' (List.mem_cons_of_mem d hd')
  · have hsum := @sum_update (fun d => removed (s.rows d) (s.lockOf tx d))
      (fun d' => removed (s.rows d') (Function.update (s.lockOf tx) d
        (some ⟨tx, State.pruned (s.rows d) remaining clock, s.recordedFor tx d⟩) d')) d selected
      hselected hd fun d' hne => by rw [Function.update_of_ne hne]
    have hbefore : removed (s.rows d) (s.lockOf tx d) = 0 := by
      rw [removed, hlock, Option.elim_some, hwritten]
      exact Nat.sub_self _
    have hafter : removed (s.rows d) (Function.update (s.lockOf tx) d
        (some ⟨tx, State.pruned (s.rows d) remaining clock, s.recordedFor tx d⟩) d) =
          min remaining (s.rows d).members.length := by
      rw [Function.update_self, removed, Option.elim_some, hmembers, List.length_drop]
      omega
    rw [hbefore, hafter] at hsum
    have htake : ((s.rows d).members.take remaining).length =
        min remaining (s.rows d).members.length := List.length_take
    have hrows : ∀ d', ((({ s with clock := clock }.hold tx d
        (State.pruned (s.rows d) remaining clock) (s.recordedFor tx d)).setStage tx
          (.pruning selectedAt selected (if remaining -
            ((s.rows d).members.take remaining).length = 0 then [] else days) (remaining -
              ((s.rows d).members.take remaining).length))).rows d') = s.rows d' := fun _ => rfl
    simp only [hrows]
    omega

/-- The locks of another transaction and the rows below them are left alone. -/
theorem PruneInv.congr {rows rows' : Day → Rows} {locks : Day → Option Lock} {stage : Stage}
    (h : PruneInv rows locks stage) (hrows : ∀ d, (locks d).isSome → rows' d = rows d) :
    PruneInv rows' locks stage := by
  refine ⟨h.idle, h.writing, fun selectedAt selected days n hstage => ?_⟩
  obtain ⟨hselected, hnodup, hlocks, hdays, hcount⟩ := h.pruning selectedAt selected days n hstage
  have hsame (d : Day) (lock : Lock) (hlock : locks d = some lock) : rows' d = rows d :=
    hrows d (by rw [hlock]; rfl)
  refine ⟨hselected, hnodup, fun d lock hlock => ?_, fun d hd => ?_, ?_⟩
  · rw [hsame d lock hlock]
    exact hlocks d lock hlock
  · obtain ⟨hmem, lock, hlock, hwritten⟩ := hdays d hd
    exact ⟨hmem, lock, hlock, hwritten.trans (hsame d lock hlock).symm⟩
  · rw [← hcount]
    congr 2
    refine List.map_congr_left fun d _ => ?_
    cases hlock : locks d with
    | none => simp [removed]
    | some lock => rw [hsame d lock hlock]

/-- A stage in which nothing is being pruned or written. -/
theorem PruneInv.insert {rows : Day → Rows} {locks : Day → Option Lock} {user now : ℤ}
    {created : Bool} : PruneInv rows locks (.recording user now created .insert) :=
  ⟨nofun, nofun, nofun⟩

theorem PruneInv.select {rows : Day → Rows} {locks : Day → Option Lock} {user now : ℤ}
    {created : Bool} : PruneInv rows locks (.recording user now created .select) :=
  ⟨nofun, nofun, nofun⟩

theorem PruneInv.running {rows : Day → Rows} {locks : Day → Option Lock} :
    PruneInv rows locks .running :=
  ⟨nofun, nofun, nofun⟩

theorem PruneInv.released {rows : Day → Rows} : PruneInv rows (fun _ => none) .idle :=
  ⟨fun _ _ => rfl, nofun, nofun⟩

theorem insertBucket_cases (h : s.insertBucket tx = some s') : ∃ user now created,
    s.stages tx = .recording user now created .insert ∧
      (s' = s.setStage tx (.recording user now created .select) ∨
        s.blocked tx (dateOf now) = false ∧ ∃ written,
          s' = (s.hold tx (dateOf now) written (s.recordedFor tx (dateOf now))).setStage tx
            (.recording user now true .select)) := by
  rw [State.insertBucket] at h
  split at h
  · rename_i user now created hstage
    split_ifs at h with hsome hblocked
    · exact ⟨user, now, created, hstage, .inl (Option.some.inj h).symm⟩
    · rw [Bool.not_eq_true] at hblocked
      exact ⟨user, now, created, hstage, .inr ⟨hblocked, _, (Option.some.inj h).symm⟩⟩
  · cases h

theorem selectBucket_cases (h : s.selectBucket tx = some s') : ∃ user now created,
    s.stages tx = .recording user now created .select ∧ s.blocked tx (dateOf now) = false ∧
      (s' = s.setStage tx (.recording user now created .insert) ∨ ∃ expiry,
        s' = (s.hold tx (dateOf now) (s.rowsFor tx (dateOf now))
          (s.recordedFor tx (dateOf now))).setStage tx
            (.recording user now created (.write expiry))) := by
  rw [State.selectBucket] at h
  split at h
  · rename_i user now created hstage
    split_ifs at h with hblocked
    rw [Bool.not_eq_true] at hblocked
    refine ⟨user, now, created, hstage, hblocked, ?_⟩
    split at h
    · exact .inl (Option.some.inj h).symm
    · exact .inr ⟨_, (Option.some.inj h).symm⟩
  · cases h

theorem writeMember_cases {clock : ℤ} (h : s.writeMember tx clock = some s') :
    ∃ user now created e written recorded,
      s.stages tx = .recording user now created (.write e) ∧
        s' = ({ s with clock := clock }.hold tx (dateOf now) written recorded).setStage tx
          .running := by
  rw [State.writeMember] at h
  split at h
  · rename_i user now created e hstage
    exact ⟨user, now, created, e, _, _, hstage, (Option.some.inj h).symm⟩
  · cases h

theorem pruneDay_cases {clock : ℤ} (h : s.pruneDay tx clock = some s') :
    ∃ selectedAt selected d days n written recorded stage,
      s.stages tx = .pruning selectedAt selected (d :: days) n ∧
        s' = ({ s with clock := clock }.hold tx d written recorded).setStage tx stage := by
  rw [State.pruneDay] at h
  split at h
  · exact ⟨_, _, _, _, _, _, _, _, by assumption, (Option.some.inj h).symm⟩
  · cases h

/-- A step keeps the invariant of its own transaction. -/
theorem step_prune {op : Op} (hi : PruneInv s.rows (s.lockOf op.txn) (s.stages op.txn))
    (h : next s op = some s') : PruneInv s'.rows (s'.lockOf op.txn) (s'.stages op.txn) := by
  cases op with
  | begin tx =>
    rw [next] at h
    split_ifs at h
    obtain rfl := Option.some.inj h
    rw [Op.txn, State.stages_setStage]
    exact .running
  | record tx user now =>
    rw [next] at h
    split_ifs at h
    obtain rfl := Option.some.inj h
    rw [Op.txn, State.stages_setStage]
    exact .insert
  | insertBucket tx =>
    obtain ⟨user, now, created, -, rfl | ⟨-, written, rfl⟩⟩ := insertBucket_cases h
    · rw [Op.txn, State.stages_setStage]
      exact .select
    · rw [Op.txn, State.stages_setStage]
      exact .select
  | selectBucket tx =>
    obtain ⟨user, now, created, -, -, rfl | ⟨expiry, rfl⟩⟩ := selectBucket_cases h
    · rw [Op.txn, State.stages_setStage]
      exact .insert
    · rw [Op.txn, State.stages_setStage, State.lockOf_setStage, State.lockOf_hold]
      refine ⟨by rintro ⟨⟩, fun user' now' created' e hnew => ?_, by rintro _ _ _ _ ⟨⟩⟩
      obtain ⟨-, rfl, -⟩ := Stage.recording.inj hnew
      rw [Function.update_self]
      rfl
  | writeMember tx clock =>
    obtain ⟨_, _, _, _, _, _, -, rfl⟩ := writeMember_cases h
    rw [Op.txn, State.stages_setStage]
    exact .running
  | selectDays tx clock days => exact selectDays_prune hi h
  | pruneDay tx clock => exact pruneDay_prune hi h
  | commit tx =>
    obtain ⟨rfl, -⟩ := commit_cases h
    have hlocks : (s.publish tx).lockOf tx = fun _ => none := State.lockOf_released rfl
    rw [Op.txn, State.stages_setStage, State.lockOf_setStage, hlocks]
    exact .released
  | abort tx =>
    rw [next, State.abort] at h
    split_ifs at h
    obtain rfl := Option.some.inj h
    have hlocks : (s.discard tx).lockOf tx = fun _ => none := State.lockOf_released rfl
    rw [Op.txn, State.stages_setStage, State.lockOf_setStage, hlocks]
    exact .released

/-- A step leaves what other transactions have locked to them. -/
theorem step_other {op : Op} (hi : PruneInv s.rows (s.lockOf op.txn) (s.stages op.txn))
    (h : next s op = some s') {tx' : TxnId} (hne : tx' ≠ op.txn) :
    s'.lockOf tx' = s.lockOf tx' ∧ s'.stages tx' = s.stages tx' ∧
      ∀ d, (s.lockOf tx' d).isSome = true → s'.rows d = s.rows d := by
  cases op with
  | begin tx =>
    rw [next] at h
    split_ifs at h
    obtain rfl := Option.some.inj h
    exact ⟨rfl, State.stages_setStage_of_ne hne _, fun _ _ => rfl⟩
  | record tx user now =>
    rw [next] at h
    split_ifs at h
    obtain rfl := Option.some.inj h
    exact ⟨rfl, State.stages_setStage_of_ne hne _, fun _ _ => rfl⟩
  | insertBucket tx =>
    obtain ⟨user, now, created, -, rfl | ⟨hblocked, written, rfl⟩⟩ := insertBucket_cases h
    · exact ⟨rfl, State.stages_setStage_of_ne hne _, fun _ _ => rfl⟩
    · exact ⟨State.lockOf_hold_of_ne hblocked hne, State.stages_setStage_of_ne hne _, fun _ _ => rfl⟩
  | selectBucket tx =>
    obtain ⟨user, now, created, -, hblocked, rfl | ⟨expiry, rfl⟩⟩ := selectBucket_cases h
    · exact ⟨rfl, State.stages_setStage_of_ne hne _, fun _ _ => rfl⟩
    · exact ⟨State.lockOf_hold_of_ne hblocked hne, State.stages_setStage_of_ne hne _, fun _ _ => rfl⟩
  | writeMember tx clock =>
    obtain ⟨user, now, created, e, written, recorded, hstage, rfl⟩ := writeMember_cases h
    obtain ⟨lock, hlock⟩ := Option.isSome_iff_exists.mp (hi.writing _ _ _ _ hstage)
    have hblocked := State.not_blocked_of_lockOf hlock
    exact ⟨State.lockOf_hold_of_ne (s := { s with clock := clock }) hblocked hne,
      State.stages_setStage_of_ne hne _, fun _ _ => rfl⟩
  | selectDays tx clock days =>
    rw [next, State.selectDays] at h
    split_ifs at h with hguard
    obtain ⟨-, -, -, hdays⟩ := hguard
    have hlocks := @lockOf_selectDays s tx days clock fun d hd => (hdays d hd).1
    obtain rfl := Option.some.inj h
    refine ⟨?_, State.stages_setStage_of_ne hne _, fun _ _ => rfl⟩
    rw [State.lockOf_setStage, hlocks tx']
    funext d
    rw [if_neg fun hd => hne hd.2]
  | pruneDay tx clock =>
    obtain ⟨selectedAt, selected, d, days, n, written, recorded, stage, hstage, rfl⟩ :=
      pruneDay_cases h
    obtain ⟨-, -, -, hdays, -⟩ := hi.pruning _ _ _ _ hstage
    obtain ⟨-, lock, hlock, -⟩ := hdays d List.mem_cons_self
    have hblocked := State.not_blocked_of_lockOf hlock
    exact ⟨State.lockOf_hold_of_ne (s := { s with clock := clock }) hblocked hne,
      State.stages_setStage_of_ne hne _, fun _ _ => rfl⟩
  | commit tx =>
    obtain ⟨rfl, -⟩ := commit_cases h
    refine ⟨State.lockOf_released_of_ne rfl hne, State.stages_setStage_of_ne hne _, fun d hd => ?_⟩
    obtain ⟨lock, hlock⟩ := Option.isSome_iff_exists.mp hd
    exact State.rowsFor_of_none
      (State.lockOf_of_not_blocked (State.not_blocked_of_lockOf hlock) fun heq => hne heq.symm)
  | abort tx =>
    rw [next, State.abort] at h
    split_ifs at h
    obtain rfl := Option.some.inj h
    exact ⟨State.lockOf_released_of_ne rfl hne, State.stages_setStage_of_ne hne _, fun _ _ => rfl⟩

theorem run_prune {clock : ℤ} {ops : List Op} (h : Run Step (initial clock) ops s) :
    ∀ tx, PruneInv s.rows (s.lockOf tx) (s.stages tx) := by
  refine h.preserves (P := fun s => ∀ tx, PruneInv s.rows (s.lockOf tx) (s.stages tx))
    (fun s op s' hi hstep tx => ?_) fun tx => .released
  by_cases hne : tx = op.txn
  · subst hne
    exact step_prune (hi _) hstep
  · obtain ⟨hlocks, hstage, hrows⟩ := step_other (hi _) hstep hne
    rw [hlocks, hstage]
    exact (hi tx).congr hrows

/-- What the commit of a pruning leaves of each day. -/
theorem commit_prunes (hi : PruneInv s.rows (s.lockOf tx) (s.stages tx)) {selectedAt : ℤ}
    {selected : List Day} {n : ℕ} (hstage : s.stages tx = .pruning selectedAt selected [] n)
    (h : s.commit tx = some s') :
    (selected.map fun d => (s.rows d).members.length - (s'.rows d).members.length).sum ≤ 1000 ∧
      ∀ d, s'.rows d = s.rows d ∨ d ∈ selected ∧ Prunes selectedAt (s.rows d) (s'.rows d) := by
  obtain ⟨rfl, -⟩ := commit_cases h
  obtain ⟨-, -, hlocks, -, hcount⟩ := hi.pruning selectedAt selected [] n hstage
  have hrows : ∀ d, ((s.publish tx).setStage tx .idle).rows d =
      (s.lockOf tx d).elim (s.rows d) Lock.written := fun _ => rfl
  simp only [hrows]
  constructor
  · rw [← hcount]
    exact Nat.le_add_right _ n
  · intro d
    cases hlock : s.lockOf tx d with
    | none => exact .inl rfl
    | some lock => exact .inr (hlocks d lock hlock)

end Pruning

/-! ### Every run -/

/-- CORRECT (Daily activity): when no reading of the clock goes back, an unexpired bucket has the
    users since it was last created or renewed from an expired state, and what a pruning takes has
    expired. Whatever the clock does, a pruning deletes at most 1000 members, of buckets that it has
    read as expired, and such a bucket only without members. -/
theorem daily_membership {clock : ℤ} {ops : List Op} {s : State}
    (h : Run Step (initial clock) ops s) :
    (Run InOrder (initial clock) ops s →
      (∀ d e now, (s.rows d).expiresAt = some e → s.clock ≤ now → now < e →
        ∀ u, u ∈ (s.rows d).members ↔ u ∈ usersSince (s.history d)) ∧
      ∀ tx selectedAt selected days n, s.stages tx = .pruning selectedAt selected days n →
        selectedAt ≤ s.clock) ∧
    ∀ tx selectedAt selected n, s.stages tx = .pruning selectedAt selected [] n →
      ∀ s', s.commit tx = some s' →
        (selected.map fun d => (s.rows d).members.length - (s'.rows d).members.length).sum ≤ 1000 ∧
          ∀ d, s'.rows d = s.rows d ∨ d ∈ selected ∧ Prunes selectedAt (s.rows d) (s'.rows d) := by
  refine ⟨fun hordered => ⟨fun d e now he hnow hlt u => ?_, fun tx at' selected days n hstage => ?_⟩,
    fun tx at' selected n hstage s' hcommit => commit_prunes (run_prune h tx) hstage hcommit⟩
  · exact ((run_inv hordered).rows d).users e he (lt_of_le_of_lt hnow hlt) u
  · exact (((run_inv hordered).txns tx).pruning at' selected days n hstage).1

/-- A step whose reading of the clock has been checked. -/
def checked (s : State) (op : Op) : Option State :=
  if op.reading.all fun t => decide (s.clock ≤ t) then next s op else none

theorem inOrder_of_checked {s s' : State} {op : Op} (h : checked s op = some s') :
    InOrder s op s' := by
  rw [checked] at h
  split_ifs at h with hall
  refine ⟨fun t ht => ?_, h⟩
  rw [ht] at hall
  exact of_decide_eq_true hall

/-- The 7th user is recorded for the first day and, when that has expired, the 9th for the second. -/
def sampleOps : List Op :=
  [.begin 0, .record 0 7 0, .insertBucket 0, .selectBucket 0, .writeMember 0 0, .commit 0,
    .begin 1, .record 1 9 86400000000, .insertBucket 1, .selectBucket 1, .writeMember 1 retention,
    .commit 1, .selectDays 2 retention [0], .pruneDay 2 retention]

def sampleState : State := (sampleOps.foldlM checked (initial 0)).getD (initial 0)

theorem sampleState_run : Run InOrder (initial 0) sampleOps sampleState :=
  (foldlM_getD_run (by decide)).mono fun _ _ _ => inOrder_of_checked

theorem daily_membership_sample : Run Step (initial 0) sampleOps sampleState ∧
    (∀ u, u ∈ (sampleState.rows 1).members ↔ u ∈ [9]) ∧
    ∃ s', sampleState.commit 2 = some s' ∧ Prunes retention (sampleState.rows 0) (s'.rows 0) := by
  have hrun : Run Step (initial 0) sampleOps sampleState :=
    sampleState_run.mono fun _ _ _ hstep => hstep.2
  obtain ⟨hexact, hprunes⟩ := daily_membership hrun
  refine ⟨hrun, ?_, (sampleState.commit 2).getD sampleState, ?_⟩
  · have hmembers := (hexact sampleState_run).1 1 (retention + retention) retention
      (by decide) (by decide) (by decide)
    have husers : usersSince (sampleState.history 1) = [9] := by decide
    rwa [husers] at hmembers
  · have hcommit : sampleState.commit 2 = some ((sampleState.commit 2).getD sampleState) :=
      eq_some_getD (by decide)
    refine ⟨hcommit, ?_⟩
    have hchanged := (hprunes 2 retention [0] 999 (by decide) _ hcommit).2 0
    exact (hchanged.resolve_left (by decide)).2

/-- The clock goes back between the two readings of a pruning, which leaves a bucket without its
    members, and that bucket is unexpired at the later reading. -/
def backwardOps : List Op :=
  [.begin 0, .record 0 7 0, .insertBucket 0, .selectBucket 0, .writeMember 0 0, .commit 0,
    .selectDays 1 retention [0], .pruneDay 1 (retention - 1), .commit 1]

def backwardState : State := (backwardOps.foldlM next (initial 0)).getD (initial 0)

theorem backward_clock_loses_members : Run Step (initial 0) backwardOps backwardState ∧
    (backwardState.rows 0).expiresAt = some retention ∧ backwardState.clock < retention ∧
    7 ∈ usersSince (backwardState.history 0) ∧ 7 ∉ (backwardState.rows 0).members :=
  ⟨foldlM_getD_run (by decide), by decide⟩

end Rustodon.Activity
