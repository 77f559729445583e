import Rustodon.Statuses.IdempotentCreation

/-! @src mastodon/write_repository.rs | name:Retries under a key | scheme:runs | family:statuses

    A request that finds nobody at work on its key is answered as a request that runs by itself: it
    creates a status, or is answered with that of its key, or with a conflict. -/

namespace Rustodon.Statuses
open Ingest (WriteError Written)
open Schemes.Runs (Run)
open Schemes.Tables (Table)

/-- The answer that an unexpired row gives. -/
def KeyRow.answer (row : KeyRow) (request : IdempotencyKey) : Written ℤ :=
  if row.fingerprint ≠ request.fingerprint then .error .conflict
  else
    match row.statusId with
    | some created => .ok created
    | none => .error .conflict

/-- The answer to a request that runs by itself at a reading of the clock, and may insert a status. -/
def State.answer (s : State) (request : IdempotencyKey) (now statusId : ℤ) : Written ℤ :=
  match s.keys request.slot with
  | none => .ok statusId
  | some row => if row.expiresAt ≤ now then .ok statusId else row.answer request

def Reaches (s s' : State) : Prop := ∃ labels, Run (fun s a s' => s.step a = some s') s labels s'

variable {s s' s'' base : State} {t : Txn} {a : Action}

theorem Reaches.trans (h : Reaches s s') (h' : Reaches s' s'') : Reaches s s'' := by
  obtain ⟨labels, hrun⟩ := h
  obtain ⟨labels', hrun'⟩ := h'
  exact ⟨labels ++ labels', hrun.append hrun'⟩

theorem Reaches.step (h : s.step a = some s') : Reaches s s' := ⟨[a], .cons h .nil⟩

/-! ### One transaction on a key -/

/-- Nobody else is at work on the key of a transaction, and nothing has been committed or answered since
    it has begun. -/
structure Solo (base : State) (t : Txn) (s : State) : Prop where
  get : s.txns.get t.id = some t
  keys : s.keys = base.keys
  writes : s.writes = base.writes
  replies : s.replies = base.replies
  others : ∀ u ∈ s.txns.rows, u.id ≠ t.id → u ∈ base.txns.rows ∧ u.slot ≠ t.slot

theorem Solo.other (h : Solo base t s) (p : Txn → Bool) : s.other t p = false := by
  rw [State.other, List.any_eq_false]
  intro u hu hboth
  simp only [Bool.and_eq_true, bne_iff_ne, beq_iff_eq] at hboth
  exact (h.others u hu hboth.1.1).2 hboth.1.2

theorem Solo.put (h : Solo base t s) (deleted : Option (KeyRow × ℤ)) (phase : Phase) :
    Solo base { t with deleted, phase } (s.put t deleted phase) where
  get := by
    rw [State.put, Table.get_modify, h.get, Option.map_some, if_pos rfl]
  keys := h.keys
  writes := h.writes
  replies := h.replies
  others u hu hid := by
    rcases mem_put (Table.mem_of_get h.get) hu with rfl | ⟨hu, hid⟩
    · exact absurd rfl hid
    · exact h.others u hu hid

theorem Solo.start {request : IdempotencyKey} {now : ℤ} (hheld : Held s)
    (hvalid : validateIdempotency request now = .ok ()) (hfree : ∀ u ∈ s.txns.rows, u.slot ≠ request.slot) :
    ∃ s', s.step (.start request now) = some s' ∧ Solo s ⟨s.nextTxn, request, none, .begun⟩ s' := by
  cases hinsert : s.txns.insert ⟨s.nextTxn, request, none, .begun⟩ with
  | none =>
    obtain ⟨u, hu⟩ := Option.isSome_iff_exists.mp (Table.mem_keys_of_insert_eq_none hinsert)
    have hlt := hheld.ids u (Table.mem_of_get hu)
    have hid := Table.key_of_get hu
    change u.id = s.nextTxn at hid
    omega
  | some txns =>
    refine ⟨{ s with txns, nextTxn := s.nextTxn + 1 }, ?_, ?_, rfl, rfl, rfl, ?_⟩
    · rw [State.step, State.start, hvalid, hinsert]
      rfl
    · rw [Table.get_insert hinsert, if_pos rfl]
    · intro u hu hid
      change u ∈ txns.rows at hu
      rw [(Table.get_of_insert hinsert).2, List.mem_append, List.mem_singleton] at hu
      rcases hu with hu | rfl
      · exact ⟨hu, hfree u hu⟩
      · exact absurd rfl hid

theorem Solo.goes (a : Action) (deleted : Option (KeyRow × ℤ)) {phase : Phase} (h : Solo base t s)
    (hstep : s.step a = some (s.put t deleted phase)) :
    ∃ s', Reaches s s' ∧ Solo base { t with deleted, phase } s' :=
  ⟨_, .step hstep, h.put deleted phase⟩

theorem Solo.finish {outcome : Written ℤ} (h : Solo base t s)
    (hstep : s.step a = some (s.finish t outcome)) :
    ∃ s', Reaches s s' ∧ s'.replies = base.replies ++ [⟨t.request, outcome⟩] := by
  refine ⟨_, .step hstep, ?_⟩
  rw [State.finish, h.replies]

section Steps

variable {statusId : ℤ} {row : KeyRow} {now : ℤ}

/-- `DELETE` finds nothing that has expired. -/
theorem Solo.keep (now : ℤ) (h : Solo base t s) (hphase : t.phase = .begun)
    (hkept : ∀ row, s.keys t.slot = some row → now < row.expiresAt) :
    ∃ s', Reaches s s' ∧ Solo base { t with phase := .inserting } s' := by
  refine h.goes (.deleteScan t.id now) t.deleted ?_
  rw [State.step, h.get, Option.bind_some, State.deleteScan, hphase]
  cases hrow : s.keys t.slot with
  | none => rfl
  | some row =>
    have hlive : ¬row.expiresAt ≤ now := by
      have hlt := hkept row hrow
      omega
    simp only [if_neg hlive]

/-- `DELETE` finds an expired row. -/
theorem Solo.expire (h : Solo base t s) (hphase : t.phase = .begun) (hrow : s.keys t.slot = some row)
    (hexpired : row.expiresAt ≤ now) :
    ∃ s', Reaches s s' ∧ Solo base { t with phase := .deleting row now } s' := by
  refine h.goes (.deleteScan t.id now) t.deleted ?_
  rw [State.step, h.get, Option.bind_some, State.deleteScan, hphase, hrow]
  simp only [if_pos hexpired]

theorem Solo.delete (h : Solo base t s) (hphase : t.phase = .deleting row now)
    (hrow : s.keys t.slot = some row) (hexpired : row.expiresAt ≤ now) :
    ∃ s', Reaches s s' ∧ Solo base { t with deleted := some (row, now), phase := .inserting } s' := by
  refine h.goes (.deleteRow t.id none) _ ?_
  rw [State.step, h.get, Option.bind_some, State.deleteRow, hphase]
  simp [h.other, hrow, hexpired]

theorem Solo.claim (h : Solo base t s) (hphase : t.phase = .inserting)
    (hnone : t.deleted.isSome = true ∨ s.keys t.slot = none) :
    ∃ s', Reaches s s' ∧ Solo base { t with phase := .claimed } s' := by
  refine h.goes (.insert t.id) t.deleted ?_
  rw [State.step, h.get, Option.bind_some, State.insert, hphase]
  simp only [h.other, if_pos hnone]
  rfl

theorem Solo.conflict (h : Solo base t s) (hphase : t.phase = .inserting) (hkept : t.deleted = none)
    (hrow : s.keys t.slot = some row) :
    ∃ s', Reaches s s' ∧ Solo base { t with phase := .selecting } s' := by
  refine h.goes (.insert t.id) t.deleted ?_
  rw [State.step, h.get, Option.bind_some, State.insert, hphase]
  simp [h.other, hkept, hrow]

theorem Solo.find (h : Solo base t s) (hphase : t.phase = .selecting) (hrow : s.keys t.slot = some row) :
    ∃ s', Reaches s s' ∧ Solo base { t with phase := .locking row } s' := by
  refine h.goes (.selectScan t.id) t.deleted ?_
  rw [State.step, h.get, Option.bind_some, State.selectScan, hphase, hrow]

theorem Solo.lock (h : Solo base t s) (hphase : t.phase = .locking row) (hrow : s.keys t.slot = some row)
    (hsame : row.fingerprint = t.request.fingerprint) :
    ∃ s', Reaches s s' ∧ Solo base { t with phase := .replaying row } s' := by
  refine h.goes (.selectRow t.id) t.deleted ?_
  rw [State.step, h.get, Option.bind_some, State.selectRow, hphase]
  simp [h.other, hrow, hsame]

/-- A row with another fingerprint. -/
theorem Solo.refuse (h : Solo base t s) (hphase : t.phase = .locking row) (hrow : s.keys t.slot = some row)
    (hother : row.fingerprint ≠ t.request.fingerprint) :
    ∃ s', Reaches s s' ∧ s'.replies = base.replies ++ [⟨t.request, row.answer t.request⟩] := by
  rw [KeyRow.answer, if_pos hother]
  refine h.finish (a := .selectRow t.id) ?_
  rw [State.step, h.get, Option.bind_some, State.selectRow, hphase]
  simp [h.other, hrow, hother]

theorem Solo.replay (h : Solo base t s) (hphase : t.phase = .replaying row)
    (hrow : s.keys t.slot = some row) (hsame : row.fingerprint = t.request.fingerprint) :
    ∃ s', Reaches s s' ∧ s'.replies = base.replies ++ [⟨t.request, row.answer t.request⟩] := by
  rw [KeyRow.answer, if_neg (not_not.mpr hsame)]
  refine h.finish (a := .replay t.id) ?_
  rw [State.step, h.get, Option.bind_some, State.replay, hphase, hrow, Option.bind_some]
  cases row.statusId <;> rfl

theorem Solo.insert_status (draft : Draft) (h : Solo base t s) (hphase : t.phase = .claimed) (hnew : statusId ∉ base.statuses)
    (hfresh : ∀ u ∈ base.txns.rows, u.statusId ≠ some statusId) :
    ∃ s', Reaches s s' ∧ Solo base { t with
      phase := .writing draft statusId [.insertStatus statusId] (statusWrites draft statusId).tail } s' := by
  refine h.goes (.insertStatus t.id draft statusId) t.deleted ?_
  rw [State.step, h.get, Option.bind_some, State.insertStatus, hphase]
  refine if_neg ?_
  rintro (hold | hother)
  · rw [State.statuses, h.writes] at hold
    exact hnew hold
  · obtain ⟨u, hu, hstatus⟩ := List.any_eq_true.mp hother
    rw [beq_iff_eq] at hstatus
    by_cases hid : u.id = t.id
    · obtain rfl := eq_of_id hu (Table.mem_of_get h.get) hid
      simp [Txn.statusId, hphase] at hstatus
    · exact hfresh u (h.others u hu hid).1 hstatus

/-- The writes of a status, one after another. -/
theorem Solo.write_all {draft : Draft} : ∀ (rest done : List StatusWrite) {s : State} {t : Txn}, Solo base t s →
    t.phase = .writing draft statusId done rest →
      ∃ s', Reaches s s' ∧ Solo base { t with phase := .writing draft statusId (done ++ rest) [] } s'
  | [], done, s, t, h, hphase => by
    refine ⟨s, ⟨[], .nil⟩, ?_⟩
    rw [List.append_nil, ← hphase]
    exact h
  | write :: rest, done, s, t, h, hphase => by
    have hstep : s.step (.write t.id) =
        some (s.put t t.deleted (.writing draft statusId (done ++ [write]) rest)) := by
      rw [State.step, h.get, Option.bind_some, State.write, hphase]
    obtain ⟨m, hfirst, hsolo⟩ := h.goes (.write t.id) t.deleted hstep
    obtain ⟨s', hreaches, hsolo⟩ := hsolo.write_all rest (done ++ [write]) rfl
    refine ⟨s', hfirst.trans hreaches, ?_⟩
    rw [List.append_assoc] at hsolo
    exact hsolo

theorem Solo.commit {draft : Draft} {done : List StatusWrite} (h : Solo base t s)
    (hphase : t.phase = .writing draft statusId done []) :
    ∃ s', Reaches s s' ∧ s'.replies = base.replies ++ [⟨t.request, .ok statusId⟩] := by
  have hstep : s.step (.commit t.id) =
      some ((s.commitCreation t draft statusId done).finish t (.ok statusId)) := by
    rw [State.step, h.get, Option.bind_some, State.commit, hphase]
  refine ⟨_, .step hstep, ?_⟩
  change s.replies ++ _ = _
  rw [h.replies]

/-- A transaction that may insert its key creates a status. -/
theorem Solo.create (draft : Draft) (h : Solo base t s) (hphase : t.phase = .inserting)
    (hnone : t.deleted.isSome = true ∨ s.keys t.slot = none) (hnew : statusId ∉ base.statuses)
    (hfresh : ∀ u ∈ base.txns.rows, u.statusId ≠ some statusId) :
    ∃ s', Reaches s s' ∧ s'.replies = base.replies ++ [⟨t.request, .ok statusId⟩] := by
  obtain ⟨s₁, hclaim, h₁⟩ := h.claim hphase hnone
  obtain ⟨s₂, hstatus, h₂⟩ := h₁.insert_status draft rfl hnew hfresh
  obtain ⟨s₃, hwrites, h₃⟩ := h₂.write_all _ _ rfl
  obtain ⟨s₄, hcommit, hreplies⟩ := h₃.commit rfl
  exact ⟨s₄, hclaim.trans (hstatus.trans (hwrites.trans hcommit)), hreplies⟩

/-- A transaction that finds an unexpired row is answered from it. -/
theorem Solo.answer (h : Solo base t s) (hphase : t.phase = .inserting) (hkept : t.deleted = none)
    (hrow : s.keys t.slot = some row) :
    ∃ s', Reaches s s' ∧ s'.replies = base.replies ++ [⟨t.request, row.answer t.request⟩] := by
  obtain ⟨s₁, hinsert, h₁⟩ := h.conflict hphase hkept hrow
  have hkeys : s₁.keys t.slot = some row := by rw [h₁.keys, ← h.keys, hrow]
  obtain ⟨s₂, hfind, h₂⟩ := h₁.find rfl hkeys
  have hkeys : s₂.keys t.slot = some row := by rw [h₂.keys, ← h.keys, hrow]
  have hreaches := hinsert.trans hfind
  by_cases hsame : row.fingerprint = t.request.fingerprint
  · obtain ⟨s₃, hlock, h₃⟩ := h₂.lock rfl hkeys hsame
    have hkeys : s₃.keys t.slot = some row := by rw [h₃.keys, ← h.keys, hrow]
    obtain ⟨s₄, hreplay, hreplies⟩ := h₃.replay rfl hkeys hsame
    exact ⟨s₄, hreaches.trans (hlock.trans hreplay), hreplies⟩
  · obtain ⟨s₃, hrefuse, hreplies⟩ := h₂.refuse rfl hkeys hsame
    exact ⟨s₃, hreaches.trans hrefuse, hreplies⟩

end Steps

/-- A request on whose key nobody is at work is answered. -/
theorem retry_answered {request : IdempotencyKey} {now statusId : ℤ} (draft : Draft) (hheld : Held s)
    (hvalid : validateIdempotency request now = .ok ()) (hfree : ∀ u ∈ s.txns.rows, u.slot ≠ request.slot)
    (hnew : statusId ∉ s.statuses) (hfresh : ∀ u ∈ s.txns.rows, u.statusId ≠ some statusId) :
    ∃ s', Reaches s s' ∧ s'.replies = s.replies ++ [⟨request, s.answer request now statusId⟩] := by
  obtain ⟨s₁, hstart, h₁⟩ := Solo.start hheld hvalid hfree
  have hstart := Reaches.step hstart
  have hkeys : s₁.keys request.slot = s.keys request.slot := by rw [h₁.keys]
  rw [State.answer]
  cases hrow : s.keys request.slot with
  | none =>
    have hnone := hkeys.trans hrow
    obtain ⟨s₂, hkeep, h₂⟩ := h₁.keep now rfl fun row hrow => by
      cases hnone.symm.trans hrow
    obtain ⟨s₃, hcreate, hreplies⟩ := h₂.create draft rfl (.inr (by rw [h₂.keys]; exact hrow)) hnew hfresh
    exact ⟨s₃, hstart.trans (hkeep.trans hcreate), hreplies⟩
  | some row =>
    have hsome := hkeys.trans hrow
    by_cases hexpired : row.expiresAt ≤ now
    · obtain ⟨s₂, hexpire, h₂⟩ := h₁.expire rfl hsome hexpired
      obtain ⟨s₃, hdelete, h₃⟩ := h₂.delete rfl (by rw [h₂.keys]; exact hrow) hexpired
      obtain ⟨s₄, hcreate, hreplies⟩ := h₃.create draft rfl (.inl rfl) hnew hfresh
      refine ⟨s₄, hstart.trans (hexpire.trans (hdelete.trans hcreate)), ?_⟩
      simp only [if_pos hexpired]
      exact hreplies
    · obtain ⟨s₂, hkeep, h₂⟩ := h₁.keep now rfl fun other hother => by
        obtain rfl := Option.some.inj (hsome.symm.trans hother)
        omega
      obtain ⟨s₃, hanswer, hreplies⟩ := h₂.answer rfl rfl (by rw [h₂.keys]; exact hrow)
      refine ⟨s₃, hstart.trans (hkeep.trans hanswer), ?_⟩
      simp only [if_neg hexpired]
      exact hreplies

/-- CORRECT (idempotent creation): in every run of requests, whatever fails and whenever keys expire,
    what is committed is the writes of creations, and a creation that another under its key follows has
    been found expired by a `DELETE`; a step that answers a request creates its status, or answers with
    that of the creation in force, which has the same fingerprint, or changes nothing; and a request on
    whose key nobody is at work can go on to its answer, which is a new status where there is no key. -/
theorem status_creation_idempotent {labels : List Action}
    (hrun : Run (fun s a s' => s.step a = some s') .empty labels s) :
    Idempotent labels s ∧ (∀ a s', s.step a = some s' → Answered s a s') ∧
      ∀ request now statusId, validateIdempotency request now = .ok () →
        (∀ u ∈ s.txns.rows, u.slot ≠ request.slot) → statusId ∉ s.statuses →
          (∀ u ∈ s.txns.rows, u.statusId ≠ some statusId) → ∀ draft : Draft,
            ∃ s', Reaches s s' ∧ s'.replies = s.replies ++ [⟨request, s.answer request now statusId⟩] := by
  obtain ⟨hheld, hlogged⟩ := run_held hrun
  refine ⟨hlogged.toIdempotent, ?_, ?_⟩
  · intro a s' hstep
    exact (step_change hstep).answered hheld hlogged
  · intro request now statusId hvalid hfree hnew hfresh draft
    exact retry_answered draft hheld hvalid hfree hnew hfresh

/-- Two requests with the same fingerprint, the first of which fails after the other has begun to wait,
    one with another fingerprint, and one again with the first: one status. -/
def overlapping : List Action :=
  let request : IdempotencyKey := ⟨"status:create:1", "key", [1], 3600⟩
  let other : IdempotencyKey := ⟨"status:create:1", "key", [2], 3600⟩
  let draft : Draft := ⟨1, "text", "", 0, false, none, [], none, 0, none, 5, [], none, none⟩
  [.start request 0, .deleteScan 0 0, .insert 0, .start request 0, .deleteScan 1 0,
    .insertStatus 0 draft 10, .write 0, .fail 0 .database, .insert 1, .insertStatus 1 draft 11] ++
  List.replicate 9 (.write 1) ++ [.commit 1] ++
  [.start other 1, .deleteScan 2 1, .insert 2, .selectScan 2, .selectRow 2] ++
  [.start request 2, .deleteScan 3 2, .insert 3, .selectScan 3, .selectRow 3, .replay 3]

theorem overlapping_isSome : (overlapping.foldlM State.step .empty).isSome = true := by decide

theorem status_creation_idempotent_overlapping :
    Idempotent overlapping ((overlapping.foldlM State.step .empty).getD .empty) ∧
      ((overlapping.foldlM State.step .empty).getD .empty).replies.map Reply.outcome =
        [.error .database, .ok 11, .error .conflict, .ok 11] ∧
      ((overlapping.foldlM State.step .empty).getD .empty).statuses = [11] :=
  ⟨(status_creation_idempotent (Schemes.Runs.foldlM_getD_run overlapping_isSome)).1, by decide,
    by decide⟩

end Rustodon.Statuses
