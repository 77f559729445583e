import Rustodon.Schemes.Runs
import Rustodon.Statuses.Idempotency

/-! @src mastodon/write_repository.rs | name:One status for a key | scheme:tables,runs |
    family:statuses

    At most one transaction holds a key: it has inserted the key, or holds the lock of its row. With
    that, the rows of keys are those of the creations that have not been removed. -/

namespace Rustodon.Statuses
open Ingest (WriteError Written)
open Schemes.Runs (Run)
open Schemes.Tables (Table)

variable {s s' : State} {t u : Txn} {a : Action}

/-! ### What a step does -/

/-- What a transaction that goes on has done. -/
inductive Move (s : State) (a : Action) (t : Txn) : Option (KeyRow × ℤ) → Phase → Prop where
  | expired (row : KeyRow) (now : ℤ) (hphase : t.phase = .begun) (hexpired : row.expiresAt ≤ now)
      (hscan : ∃ id, a = .deleteScan id now) : Move s a t t.deleted (.deleting row now)
  | kept (hphase : t.phase = .begun ∨ ∃ row now, t.phase = .deleting row now) :
      Move s a t t.deleted .inserting
  | deleted (row : KeyRow) (now found : ℤ) (hphase : t.phase = .deleting row found)
      (hfree : s.other t Txn.locks = false) (hrow : s.keys t.slot = some row)
      (hexpired : row.expiresAt ≤ now) (hread : now = found ∨ ∃ id, a = .deleteRow id (some now)) :
      Move s a t (some (row, now)) .inserting
  | inserted (hphase : t.phase = .inserting)
      (hfree : s.other t (fun u => u.claims || u.deleted.isSome) = false)
      (hnone : t.deleted.isSome = true ∨ s.keys t.slot = none) : Move s a t t.deleted .claimed
  | conflicted (hphase : t.phase = .inserting) (hkept : t.deleted = none) : Move s a t t.deleted .selecting
  | found (row : KeyRow) (hphase : t.phase = .selecting) : Move s a t t.deleted (.locking row)
  | locked (row : KeyRow) (hphase : t.phase = .locking row) (hfree : s.other t Txn.locks = false)
      (hrow : s.keys t.slot = some row) (hsame : row.fingerprint = t.request.fingerprint) :
      Move s a t t.deleted (.replaying row)
  | drafted (draft : Draft) (statusId : ℤ) (hphase : t.phase = .claimed) (hnew : statusId ∉ s.statuses)
      (hfree : ∀ u ∈ s.txns.rows, u.statusId ≠ some statusId) :
      Move s a t t.deleted (.writing draft statusId [.insertStatus statusId] (statusWrites draft statusId).tail)
  | written (draft : Draft) (statusId : ℤ) (done rest : List StatusWrite) (write : StatusWrite)
      (hphase : t.phase = .writing draft statusId done (write :: rest)) :
      Move s a t t.deleted (.writing draft statusId (done ++ [write]) rest)

/-- What a step has done. -/
inductive Change (s : State) (a : Action) : State → Prop where
  | rejected (request : IdempotencyKey) (now : ℤ) (error : WriteError) (hstart : a = .start request now)
      (hinvalid : validateIdempotency request now = .error error) :
      Change s a { s with replies := s.replies ++ [⟨request, .error error⟩] }
  | started (request : IdempotencyKey) (txns : Table Txn.id)
      (hinsert : s.txns.insert ⟨s.nextTxn, request, none, .begun⟩ = some txns) :
      Change s a { s with txns, nextTxn := s.nextTxn + 1 }
  | moved (t : Txn) (deleted : Option (KeyRow × ℤ)) (phase : Phase) (ht : t ∈ s.txns.rows)
      (hmove : Move s a t deleted phase) : Change s a (s.put t deleted phase)
  | refused (t : Txn) (error : WriteError) (ht : t ∈ s.txns.rows)
      (herror : error = .conflict ∨ ∃ id, a = .fail id error) : Change s a (s.finish t (.error error))
  | replayed (t : Txn) (row : KeyRow) (statusId : ℤ) (ht : t ∈ s.txns.rows)
      (hphase : t.phase = .replaying row) (hresult : (s.keys t.slot).bind KeyRow.statusId = some statusId) :
      Change s a (s.finish t (.ok statusId))
  | created (t : Txn) (draft : Draft) (statusId : ℤ) (done : List StatusWrite) (ht : t ∈ s.txns.rows)
      (hphase : t.phase = .writing draft statusId done []) :
      Change s a ((s.commitCreation t draft statusId done).finish t (.ok statusId))

theorem start_change {request : IdempotencyKey} {now : ℤ} (h : s.start request now = some s') :
    Change s (.start request now) s' := by
  unfold State.start at h
  split at h
  · rename_i error hinvalid
    obtain rfl := Option.some.inj h
    exact .rejected request now error rfl hinvalid
  · obtain ⟨txns, hinsert, rfl⟩ := Option.map_eq_some_iff.mp h
    exact .started request txns hinsert

theorem deleteScan_change (ht : t ∈ s.txns.rows) {id : ℕ} {now : ℤ} (h : s.deleteScan t now = some s') :
    Change s (.deleteScan id now) s' := by
  unfold State.deleteScan at h
  split at h
  · rename_i hphase
    split at h
    · obtain rfl := Option.some.inj h
      split
      · exact .moved t _ _ ht (.expired _ now hphase ‹_› ⟨id, rfl⟩)
      · exact .moved t _ _ ht (.kept (.inl hphase))
    · obtain rfl := Option.some.inj h
      exact .moved t _ _ ht (.kept (.inl hphase))
  · cases h

theorem deleteRow_change (ht : t ∈ s.txns.rows) {id : ℕ} {recheck : Option ℤ}
    (h : s.deleteRow t recheck = some s') : Change s (.deleteRow id recheck) s' := by
  unfold State.deleteRow at h
  split at h
  · rename_i row now hphase
    split at h
    · cases h
    · rename_i hfree
      split at h
      · rename_i hrow
        obtain rfl := Option.some.inj h
        refine .moved t _ _ ht
          (.deleted row _ now hphase (Bool.eq_false_iff.mpr hfree) hrow.1 hrow.2 ?_)
        cases recheck with
        | none => exact .inl rfl
        | some found => exact .inr ⟨id, rfl⟩
      · obtain rfl := Option.some.inj h
        exact .moved t _ _ ht (.kept (.inr ⟨row, now, hphase⟩))
  · cases h

theorem insert_change (ht : t ∈ s.txns.rows) (h : s.insert t = some s') : Change s a s' := by
  unfold State.insert at h
  split at h
  · rename_i hphase
    split at h
    · cases h
    · rename_i hfree
      split at h
      · rename_i hnone
        obtain rfl := Option.some.inj h
        exact .moved t _ _ ht (.inserted hphase (Bool.eq_false_iff.mpr hfree) hnone)
      · rename_i hnone
        obtain rfl := Option.some.inj h
        have hkept : t.deleted = none := by simpa using fun hdeleted => hnone (.inl hdeleted)
        exact .moved t _ _ ht (.conflicted hphase hkept)
  · cases h

theorem selectScan_change (ht : t ∈ s.txns.rows) (h : s.selectScan t = some s') : Change s a s' := by
  unfold State.selectScan at h
  split at h
  · rename_i hphase
    split at h
    · obtain rfl := Option.some.inj h
      exact .moved t _ _ ht (.found _ hphase)
    · obtain rfl := Option.some.inj h
      exact .refused t _ ht (.inl rfl)
  · cases h

theorem selectRow_change (ht : t ∈ s.txns.rows) (h : s.selectRow t = some s') : Change s a s' := by
  unfold State.selectRow at h
  split at h
  · rename_i row hphase
    split at h
    · cases h
    · rename_i hfree
      split at h
      · obtain rfl := Option.some.inj h
        exact .refused t _ ht (.inl rfl)
      · rename_i hrow
        split at h
        · obtain rfl := Option.some.inj h
          exact .refused t _ ht (.inl rfl)
        · rename_i hsame
          obtain rfl := Option.some.inj h
          exact .moved t _ _ ht
            (.locked row hphase (Bool.eq_false_iff.mpr hfree) (not_not.mp hrow) (not_not.mp hsame))
  · cases h

theorem replay_change (ht : t ∈ s.txns.rows) (h : s.replay t = some s') : Change s a s' := by
  unfold State.replay at h
  split at h
  · rename_i row hphase
    split at h
    · rename_i statusId hresult
      obtain rfl := Option.some.inj h
      exact .replayed t row statusId ht hphase hresult
    · obtain rfl := Option.some.inj h
      exact .refused t _ ht (.inl rfl)
  · cases h

theorem insertStatus_change (ht : t ∈ s.txns.rows) {draft : Draft} {statusId : ℤ}
    (h : s.insertStatus t draft statusId = some s') : Change s a s' := by
  unfold State.insertStatus at h
  split at h
  · rename_i hphase
    split at h
    · cases h
    · rename_i hnew
      obtain rfl := Option.some.inj h
      push Not at hnew
      refine .moved t _ _ ht (.drafted draft statusId hphase hnew.1 fun u hu heq => ?_)
      exact hnew.2 (List.any_eq_true.mpr ⟨u, hu, by simp [heq]⟩)
  · cases h

theorem write_change (ht : t ∈ s.txns.rows) (h : s.write t = some s') : Change s a s' := by
  unfold State.write at h
  split at h
  · rename_i draft statusId done write rest hphase
    obtain rfl := Option.some.inj h
    exact .moved t _ _ ht (.written draft statusId done rest write hphase)
  · cases h

theorem commit_change (ht : t ∈ s.txns.rows) (h : s.commit t = some s') : Change s a s' := by
  unfold State.commit at h
  split at h
  · rename_i draft statusId done hphase
    obtain rfl := Option.some.inj h
    exact .created t draft statusId done ht hphase
  · cases h

theorem step_change (h : s.step a = some s') : Change s a s' := by
  cases a with
  | start request now => exact start_change h
  | deleteScan id now =>
    obtain ⟨t, ht, h⟩ := Option.bind_eq_some_iff.mp h
    exact deleteScan_change (Table.mem_of_get ht) h
  | deleteRow id recheck =>
    obtain ⟨t, ht, h⟩ := Option.bind_eq_some_iff.mp h
    exact deleteRow_change (Table.mem_of_get ht) h
  | insert id =>
    obtain ⟨t, ht, h⟩ := Option.bind_eq_some_iff.mp h
    exact insert_change (Table.mem_of_get ht) h
  | selectScan id =>
    obtain ⟨t, ht, h⟩ := Option.bind_eq_some_iff.mp h
    exact selectScan_change (Table.mem_of_get ht) h
  | selectRow id =>
    obtain ⟨t, ht, h⟩ := Option.bind_eq_some_iff.mp h
    exact selectRow_change (Table.mem_of_get ht) h
  | replay id =>
    obtain ⟨t, ht, h⟩ := Option.bind_eq_some_iff.mp h
    exact replay_change (Table.mem_of_get ht) h
  | insertStatus id draft statusId =>
    obtain ⟨t, ht, h⟩ := Option.bind_eq_some_iff.mp h
    exact insertStatus_change (Table.mem_of_get ht) h
  | write id =>
    obtain ⟨t, ht, h⟩ := Option.bind_eq_some_iff.mp h
    exact write_change (Table.mem_of_get ht) h
  | commit id =>
    obtain ⟨t, ht, h⟩ := Option.bind_eq_some_iff.mp h
    exact commit_change (Table.mem_of_get ht) h
  | fail id error =>
    obtain ⟨t, ht, rfl⟩ := Option.map_eq_some_iff.mp h
    exact .refused t error (Table.mem_of_get ht) (.inr ⟨id, rfl⟩)

/-! ### The invariant -/

/-- A row stands for a creation. -/
structure Creation.IsRow (creation : Creation) (row : KeyRow) : Prop where
  fingerprint : row.fingerprint = creation.request.fingerprint
  statusId : row.statusId = some creation.statusId
  expiresAt : row.expiresAt = creation.request.expiresAt

/-- What is known in a phase. -/
def Phase.Ok (keys : Slot → Option KeyRow) (t : Txn) : Phase → Prop
  | .begun | .selecting | .locking _ => t.deleted = none
  | .deleting _ _ => t.deleted = none
  | .inserting => True
  | .claimed => t.deleted = none → keys t.slot = none
  | .writing draft statusId done rest =>
    (t.deleted = none → keys t.slot = none) ∧ done ++ rest = statusWrites draft statusId
  | .replaying row =>
    t.deleted = none ∧ keys t.slot = some row ∧ row.fingerprint = t.request.fingerprint

structure Txn.Ok (keys : Slot → Option KeyRow) (t : Txn) : Prop where
  deleted : ∀ row now, t.deleted = some (row, now) → keys t.slot = some row ∧ row.expiresAt ≤ now
  phase : t.phase.Ok keys t

/-- It has inserted the key, or holds the lock of its row. -/
def Txn.holds (t : Txn) : Bool := t.claims || t.locks

structure Held (s : State) : Prop where
  ids : ∀ t ∈ s.txns.rows, t.id < s.nextTxn
  ok : ∀ t ∈ s.txns.rows, t.Ok s.keys
  alone : ∀ t ∈ s.txns.rows, ∀ u ∈ s.txns.rows, t.slot = u.slot → t.holds = true → u.holds = true → t = u
  fresh : ∀ t ∈ s.txns.rows, ∀ statusId, t.statusId = some statusId → statusId ∉ s.statuses
  distinct : ∀ t ∈ s.txns.rows, ∀ u ∈ s.txns.rows, ∀ statusId, t.statusId = some statusId →
    u.statusId = some statusId → t = u

theorem held_empty : Held State.empty := by
  constructor <;> intro t ht <;> cases ht

theorem eq_of_id (ht : t ∈ s.txns.rows) (hu : u ∈ s.txns.rows) (h : t.id = u.id) : t = u :=
  List.inj_on_of_nodup_map s.txns.keys_nodup ht hu h

theorem mem_put {deleted : Option (KeyRow × ℤ)} {phase : Phase} (ht : t ∈ s.txns.rows)
    (hu : u ∈ (s.put t deleted phase).txns.rows) :
    u = { t with deleted, phase } ∨ u ∈ s.txns.rows ∧ u.id ≠ t.id := by
  obtain ⟨before, hbefore, rfl⟩ := List.mem_map.mp hu
  by_cases hid : before.id = t.id
  · obtain rfl := eq_of_id hbefore ht hid
    exact .inl (if_pos rfl)
  · rw [if_neg hid]
    exact .inr ⟨hbefore, hid⟩

theorem mem_finish {outcome : Written ℤ} :
    u ∈ (s.finish t outcome).txns.rows ↔ u ∈ s.txns.rows ∧ u.id ≠ t.id :=
  Table.mem_erase

/-- A transaction goes on. -/
theorem Held.put {deleted : Option (KeyRow × ℤ)} {phase : Phase} (h : Held s) (ht : t ∈ s.txns.rows)
    (hok : ({ t with deleted, phase } : Txn).Ok s.keys)
    (hholds : ({ t with deleted, phase } : Txn).holds = true → t.holds = true ∨
      ∀ u ∈ s.txns.rows, u.id ≠ t.id → u.slot = t.slot → u.holds = false)
    (hstatus : ∀ statusId, ({ t with deleted, phase } : Txn).statusId = some statusId →
      t.statusId = some statusId ∨ statusId ∉ s.statuses ∧ ∀ u ∈ s.txns.rows, u.statusId ≠ some statusId) :
    Held (s.put t deleted phase) where
  ids u hu := by
    rcases mem_put ht hu with rfl | ⟨hu, -⟩
    · exact h.ids t ht
    · exact h.ids u hu
  ok u hu := by
    rcases mem_put ht hu with rfl | ⟨hu, -⟩
    · exact hok
    · exact h.ok u hu
  alone u hu v hv hslot huholds hvholds := by
    have hmoved : ∀ u ∈ s.txns.rows, u.id ≠ t.id → u.slot = t.slot → u.holds = true →
        ({ t with deleted, phase } : Txn).holds = true → False := by
      intro u hu hid hslot huholds hnew
      rcases hholds hnew with hold | hfree
      · exact hid (congrArg Txn.id (h.alone u hu t ht hslot huholds hold))
      · rw [hfree u hu hid hslot] at huholds
        cases huholds
    rcases mem_put ht hu with rfl | ⟨hu, huid⟩ <;> rcases mem_put ht hv with rfl | ⟨hv, hvid⟩
    · rfl
    · exact (hmoved v hv hvid hslot.symm hvholds huholds).elim
    · exact (hmoved u hu huid hslot huholds hvholds).elim
    · exact h.alone u hu v hv hslot huholds hvholds
  fresh u hu statusId hid := by
    rcases mem_put ht hu with rfl | ⟨hu, -⟩
    · rcases hstatus statusId hid with hold | hnew
      · exact h.fresh t ht statusId hold
      · exact hnew.1
    · exact h.fresh u hu statusId hid
  distinct u hu v hv statusId huid hvid := by
    have hmoved : ∀ u ∈ s.txns.rows, u.id ≠ t.id → u.statusId = some statusId →
        ({ t with deleted, phase } : Txn).statusId = some statusId → False := by
      intro u hu hid hustatus hnew
      rcases hstatus statusId hnew with hold | hfree
      · exact hid (congrArg Txn.id (h.distinct u hu t ht statusId hustatus hold))
      · exact hfree.2 u hu hustatus
    rcases mem_put ht hu with rfl | ⟨hu, hne⟩ <;> rcases mem_put ht hv with rfl | ⟨hv, hne'⟩
    · rfl
    · exact (hmoved v hv hne' hvid huid).elim
    · exact (hmoved u hu hne huid hvid).elim
    · exact h.distinct u hu v hv statusId huid hvid

theorem Held.finish (h : Held s) {outcome : Written ℤ} : Held (s.finish t outcome) where
  ids u hu := h.ids u (mem_finish.mp hu).1
  ok u hu := h.ok u (mem_finish.mp hu).1
  alone u hu v hv := h.alone u (mem_finish.mp hu).1 v (mem_finish.mp hv).1
  fresh u hu := h.fresh u (mem_finish.mp hu).1
  distinct u hu v hv := h.distinct u (mem_finish.mp hu).1 v (mem_finish.mp hv).1

theorem other_eq_false {p : Txn → Bool} (h : s.other t p = false) (hu : u ∈ s.txns.rows)
    (hid : u.id ≠ t.id) (hslot : u.slot = t.slot) : p u = false := by
  rw [State.other, List.any_eq_false] at h
  simpa [hid, hslot] using h u hu

/-- Without a committed row nobody holds its lock. -/
theorem Txn.Ok.locks_eq_false (h : u.Ok s.keys) (hnone : s.keys u.slot = none) : u.locks = false := by
  have hdeleted : u.deleted = none := by
    cases hdeleted : u.deleted with
    | none => rfl
    | some found =>
      have hrow := (h.deleted found.1 found.2 hdeleted).1
      rw [hnone] at hrow
      cases hrow
  have hphase := h.phase
  rw [Txn.locks, hdeleted]
  cases hu : u.phase with
  | replaying row =>
    rw [hu] at hphase
    have hrow := hphase.2.1
    rw [hnone] at hrow
    cases hrow
  | _ => rfl

/-- Where a committed row is not locked, nobody has inserted its key. -/
theorem Txn.Ok.claims_eq_false {row : KeyRow} (h : u.Ok s.keys) (hrow : s.keys u.slot = some row)
    (hfree : u.locks = false) : u.claims = false := by
  have hdeleted : u.deleted = none := by
    rw [Txn.locks, Bool.or_eq_false_iff] at hfree
    simpa using hfree.1
  have hphase := h.phase
  rw [Txn.claims]
  cases hu : u.phase with
  | claimed =>
    rw [hu] at hphase
    rw [hphase hdeleted] at hrow
    cases hrow
  | writing draft statusId done rest =>
    rw [hu] at hphase
    rw [hphase.1 hdeleted] at hrow
    cases hrow
  | _ => rfl

theorem holds_eq_false {row : KeyRow} (h : Held s) (hrow : s.keys t.slot = some row)
    (hfree : s.other t Txn.locks = false) (hu : u ∈ s.txns.rows) (hid : u.id ≠ t.id)
    (hslot : u.slot = t.slot) : u.holds = false := by
  have hlocks := other_eq_false hfree hu hid hslot
  have hclaims := (h.ok u hu).claims_eq_false (hslot ▸ hrow) hlocks
  rw [Txn.holds, hclaims, hlocks]
  rfl

theorem Held.move {deleted : Option (KeyRow × ℤ)} {phase : Phase} (h : Held s) (ht : t ∈ s.txns.rows)
    (hmove : Move s a t deleted phase) : Held (s.put t deleted phase) := by
  have hok := h.ok t ht
  have hphaseOk := hok.phase
  cases hmove with
  | expired row now hphase hexpired hscan =>
    rw [hphase] at hphaseOk
    have hkept : t.deleted = none := hphaseOk
    refine h.put ht ⟨hok.deleted, hkept⟩ ?_ ?_
    · intro hholds
      simp [Txn.holds, Txn.claims, Txn.locks, hkept] at hholds
    · intro statusId hstatus
      cases hstatus
  | kept hphase =>
    have hkept : t.deleted = none := by
      rcases hphase with hphase | ⟨row, now, hphase⟩ <;> rw [hphase] at hphaseOk <;> exact hphaseOk
    refine h.put ht ⟨hok.deleted, trivial⟩ ?_ ?_
    · intro hholds
      simp [Txn.holds, Txn.claims, Txn.locks, hkept] at hholds
    · intro statusId hstatus
      cases hstatus
  | deleted row now found hphase hfree hrow hexpired hread =>
    refine h.put ht ⟨?_, trivial⟩ ?_ ?_
    · rintro _ _ ⟨⟩
      exact ⟨hrow, hexpired⟩
    · intro _
      exact .inr fun u hu hid hslot => holds_eq_false h hrow hfree hu hid hslot
    · intro statusId hstatus
      cases hstatus
  | inserted hphase hfree hnone =>
    refine h.put ht ⟨hok.deleted, ?_⟩ ?_ ?_
    · intro hkept
      change t.deleted = none at hkept
      exact hnone.resolve_left (by simp [hkept])
    · intro _
      rcases hnone with hdeleted | hnone
      · exact .inl (by simp [Txn.holds, Txn.locks, hdeleted])
      · refine .inr fun u hu hid hslot => ?_
        have hlocks := (h.ok u hu).locks_eq_false (hslot ▸ hnone)
        have hclaims := (Bool.or_eq_false_iff.mp (other_eq_false hfree hu hid hslot)).1
        rw [Txn.holds, hclaims, hlocks]
        rfl
    · intro statusId hstatus
      cases hstatus
  | conflicted hphase hkept =>
    refine h.put ht ⟨hok.deleted, hkept⟩ ?_ ?_
    · intro hholds
      simp [Txn.holds, Txn.claims, Txn.locks, hkept] at hholds
    · intro statusId hstatus
      cases hstatus
  | found row hphase =>
    rw [hphase] at hphaseOk
    have hkept : t.deleted = none := hphaseOk
    refine h.put ht ⟨hok.deleted, hkept⟩ ?_ ?_
    · intro hholds
      simp [Txn.holds, Txn.claims, Txn.locks, hkept] at hholds
    · intro statusId hstatus
      cases hstatus
  | locked row hphase hfree hrow hsame =>
    rw [hphase] at hphaseOk
    refine h.put ht ⟨hok.deleted, hphaseOk, hrow, hsame⟩ ?_ ?_
    · intro _
      exact .inr fun u hu hid hslot => holds_eq_false h hrow hfree hu hid hslot
    · intro statusId hstatus
      cases hstatus
  | drafted draft statusId hphase hnew hfree =>
    rw [hphase] at hphaseOk
    refine h.put ht ⟨hok.deleted, hphaseOk, rfl⟩ ?_ ?_
    · intro _
      exact .inl (by simp [Txn.holds, Txn.claims, hphase])
    · rintro _ ⟨⟩
      exact .inr ⟨hnew, hfree⟩
  | written draft statusId done rest write hphase =>
    rw [hphase] at hphaseOk
    refine h.put ht ⟨hok.deleted, hphaseOk.1, ?_⟩ ?_ ?_
    · rw [List.append_assoc]
      exact hphaseOk.2
    · intro _
      exact .inl (by simp [Txn.holds, Txn.claims, hphase])
    · rintro _ ⟨⟩
      exact .inl (by simp [Txn.statusId, hphase])

/-! ### Commits -/

theorem Phase.Ok.congr {keys keys' : Slot → Option KeyRow} {phase : Phase}
    (hkeys : keys' t.slot = keys t.slot) (h : phase.Ok keys t) : phase.Ok keys' t := by
  cases phase <;> simp only [Phase.Ok, hkeys] at h ⊢ <;> exact h

theorem Txn.Ok.congr {keys keys' : Slot → Option KeyRow} (hkeys : keys' t.slot = keys t.slot)
    (h : t.Ok keys) : t.Ok keys' where
  deleted := by
    rw [hkeys]
    exact h.deleted
  phase := h.phase.congr hkeys

/-- What is known of a transaction that holds nothing does not depend on the rows. -/
theorem Txn.Ok.free {keys : Slot → Option KeyRow} (keys' : Slot → Option KeyRow) (h : t.Ok keys)
    (hfree : t.holds = false) : t.Ok keys' := by
  obtain ⟨hclaims, hlocks⟩ := Bool.or_eq_false_iff.mp hfree
  obtain ⟨hdeleted, hlocks⟩ := Bool.or_eq_false_iff.mp hlocks
  have hphase := h.phase
  constructor
  · intro row now hrow
    rw [hrow] at hdeleted
    cases hdeleted
  · rw [Txn.claims] at hclaims
    cases hp : t.phase <;> rw [hp] at hclaims hlocks hphase
    case claimed | writing => cases hclaims
    case replaying => cases hlocks
    all_goals exact hphase

section Created

variable {draft : Draft} {statusId : ℤ} {done : List StatusWrite}

theorem done_eq (h : Held s) (ht : t ∈ s.txns.rows) (hphase : t.phase = .writing draft statusId done []) :
    done = statusWrites draft statusId := by
  have hok := (h.ok t ht).phase
  rw [hphase] at hok
  simpa using hok.2

theorem statuses_commitCreation (hdone : done = statusWrites draft statusId) :
    (s.commitCreation t draft statusId done).statuses = s.statuses ++ [statusId] := by
  rw [State.statuses, State.commitCreation, List.filterMap_append, hdone, inserted_statusWrites]
  rfl

theorem Held.created (h : Held s) (ht : t ∈ s.txns.rows)
    (hphase : t.phase = .writing draft statusId done []) :
    Held ((s.commitCreation t draft statusId done).finish t (.ok statusId)) where
  ids u hu := h.ids u (mem_finish.mp hu).1
  ok u hu := by
    obtain ⟨hu, hid⟩ := mem_finish.mp hu
    by_cases hslot : u.slot = t.slot
    · refine (h.ok u hu).free _ (Bool.eq_false_iff.mpr fun hholds => hid ?_)
      have htholds : t.holds = true := by simp [Txn.holds, Txn.claims, hphase]
      rw [h.alone u hu t ht hslot hholds htholds]
    · exact (h.ok u hu).congr (Function.update_of_ne hslot _ _)
  alone u hu v hv := h.alone u (mem_finish.mp hu).1 v (mem_finish.mp hv).1
  fresh u hu other hother := by
    obtain ⟨hu, hid⟩ := mem_finish.mp hu
    change other ∉ (s.commitCreation t draft statusId done).statuses
    rw [statuses_commitCreation (done_eq h ht hphase), List.mem_append, List.mem_singleton]
    rintro (hold | rfl)
    · exact h.fresh u hu other hother hold
    · have hstatus : t.statusId = some other := by simp [Txn.statusId, hphase]
      exact hid (congrArg Txn.id (h.distinct u hu t ht other hother hstatus))
  distinct u hu v hv := h.distinct u (mem_finish.mp hu).1 v (mem_finish.mp hv).1

end Created

theorem Held.step (h : Held s) (hchange : Change s a s') : Held s' := by
  cases hchange with
  | rejected request now error hstart hinvalid => exact ⟨h.ids, h.ok, h.alone, h.fresh, h.distinct⟩
  | started request txns hinsert =>
    have hrows := (Table.get_of_insert hinsert).2
    have hmem : ∀ u ∈ txns.rows, u ∈ s.txns.rows ∨ u = ⟨s.nextTxn, request, none, .begun⟩ := by
      intro u hu
      rw [hrows, List.mem_append, List.mem_singleton] at hu
      exact hu
    constructor
    · intro u hu
      rcases hmem u hu with hu | rfl
      · exact Nat.lt_succ_of_lt (h.ids u hu)
      · exact Nat.lt_succ_self _
    · intro u hu
      rcases hmem u hu with hu | rfl
      · exact h.ok u hu
      · exact ⟨fun row now hdeleted => (by cases hdeleted), rfl⟩
    · intro u hu v hv hslot huholds hvholds
      rcases hmem u hu with hu | rfl
      · rcases hmem v hv with hv | rfl
        · exact h.alone u hu v hv hslot huholds hvholds
        · cases hvholds
      · cases huholds
    · intro u hu statusId hstatus
      rcases hmem u hu with hu | rfl
      · exact h.fresh u hu statusId hstatus
      · cases hstatus
    · intro u hu v hv statusId hustatus hvstatus
      rcases hmem u hu with hu | rfl
      · rcases hmem v hv with hv | rfl
        · exact h.distinct u hu v hv statusId hustatus hvstatus
        · cases hvstatus
      · cases hustatus
  | moved t deleted phase ht hmove => exact h.move ht hmove
  | refused t error ht herror => exact h.finish
  | replayed t row statusId ht hphase hresult => exact h.finish
  | created t draft statusId done ht hphase => exact h.created ht hphase

/-! ### Creations -/

/-- A `DELETE` has read the clock. -/
def Read (labels : List Action) (now : ℤ) : Prop :=
  ∃ id, .deleteScan id now ∈ labels ∨ .deleteRow id (some now) ∈ labels

/-- The writes that are committed are those of creations; of two creations under one key, a `DELETE` has
    found the earlier one expired. -/
structure Idempotent (labels : List Action) (s : State) : Prop where
  writes : s.writes = s.creations.flatMap fun creation => statusWrites creation.draft creation.statusId
  nodup : s.statuses.Nodup
  once : s.creations.Pairwise fun earlier later => earlier.request.slot = later.request.slot →
    ∃ now, earlier.removed = some now ∧ Read labels now ∧ earlier.request.expiresAt ≤ now
  current : ∀ creation ∈ s.creations, creation.removed = none →
    ∃ row, s.keys creation.request.slot = some row ∧ creation.IsRow row
  origin : ∀ slot row, s.keys slot = some row →
    ∃ creation ∈ s.creations, creation.removed = none ∧ creation.request.slot = slot ∧ creation.IsRow row

structure Logged (labels : List Action) (s : State) : Prop extends Idempotent labels s where
  removed : ∀ creation ∈ s.creations, ∀ now, creation.removed = some now →
    Read labels now ∧ creation.request.expiresAt ≤ now
  read : ∀ t ∈ s.txns.rows, ∀ row now, t.deleted = some (row, now) ∨ t.phase = .deleting row now →
    Read labels now

variable {labels : List Action}

theorem Read.mono {now : ℤ} (h : Read labels now) : Read (labels ++ [a]) now := by
  obtain ⟨id, hread | hread⟩ := h
  · exact ⟨id, .inl (List.mem_append_left _ hread)⟩
  · exact ⟨id, .inr (List.mem_append_left _ hread)⟩

/-- Steps that leave alone what is committed. -/
structure Unchanged (s s' : State) : Prop where
  keys : s'.keys = s.keys
  writes : s'.writes = s.writes
  creations : s'.creations = s.creations

theorem Idempotent.unchanged (h : Idempotent labels s) (hsame : Unchanged s s') :
    Idempotent (labels ++ [a]) s' where
  writes := by rw [hsame.writes, hsame.creations, h.writes]
  nodup := by
    rw [State.statuses, hsame.writes]
    exact h.nodup
  once := by
    rw [hsame.creations]
    refine h.once.imp fun hpair hslot => ?_
    obtain ⟨now, hremoved, hread, hexpired⟩ := hpair hslot
    exact ⟨now, hremoved, hread.mono, hexpired⟩
  current := by
    rw [hsame.creations, hsame.keys]
    exact h.current
  origin := by
    rw [hsame.creations, hsame.keys]
    exact h.origin

section Created

variable {draft : Draft} {statusId : ℤ} {done : List StatusWrite} {creation : Creation}

@[simp] theorem removeBy_request : (creation.removeBy t).request = creation.request := by
  rw [Creation.removeBy]
  split <;> rfl

@[simp] theorem removeBy_draft : (creation.removeBy t).draft = creation.draft := by
  rw [Creation.removeBy]
  split <;> rfl

@[simp] theorem removeBy_statusId : (creation.removeBy t).statusId = creation.statusId := by
  rw [Creation.removeBy]
  split <;> rfl

theorem removeBy_of_ne (h : creation.request.slot ≠ t.slot) : creation.removeBy t = creation :=
  if_neg fun hboth => h hboth.1

theorem removeBy_of_removed (h : creation.removed ≠ none) : creation.removeBy t = creation :=
  if_neg fun hboth => h hboth.2

/-- A creation that a transaction replaces has been found expired. -/
theorem removed_of_slot (hheld : Held s) (h : Logged labels s) (ht : t ∈ s.txns.rows)
    (hphase : t.phase = .writing draft statusId done []) (hcreation : creation ∈ s.creations)
    (hslot : creation.request.slot = t.slot) :
    ∃ now, (creation.removeBy t).removed = some now ∧ Read labels now ∧ creation.request.expiresAt ≤ now := by
  cases hremoved : creation.removed with
  | some now =>
    obtain ⟨hread, hexpired⟩ := h.removed creation hcreation now hremoved
    exact ⟨now, by rw [removeBy_of_removed (by simp [hremoved]), hremoved], hread, hexpired⟩
  | none =>
    obtain ⟨row, hrow, hisRow⟩ := h.current creation hcreation hremoved
    have hok := hheld.ok t ht
    cases hdeleted : t.deleted with
    | none =>
      have hnone := hok.phase
      rw [hphase] at hnone
      rw [hslot, hnone.1 hdeleted] at hrow
      cases hrow
    | some found =>
      obtain ⟨hfound, hexpired⟩ := hok.deleted found.1 found.2 hdeleted
      rw [← hslot, hrow] at hfound
      obtain rfl := Option.some.inj hfound
      refine ⟨found.2, ?_, h.read t ht found.1 found.2 (.inl hdeleted), hisRow.expiresAt ▸ hexpired⟩
      rw [Creation.removeBy, if_pos ⟨hslot, hremoved⟩, hdeleted]
      rfl

theorem keys_created_self (hdone : done = statusWrites draft statusId) :
    ((s.commitCreation t draft statusId done).finish t (.ok statusId)).keys t.slot =
      some ⟨t.request.fingerprint, some statusId, t.request.expiresAt, t.id⟩ := by
  have hresult : resultOf done = some statusId := by
    rw [resultOf, hdone, completed_statusWrites]
    rfl
  change Function.update s.keys t.slot _ t.slot = _
  rw [Function.update_self, hresult]

theorem keys_created_of_ne {slot : Slot} (hslot : slot ≠ t.slot) :
    ((s.commitCreation t draft statusId done).finish t (.ok statusId)).keys slot = s.keys slot :=
  Function.update_of_ne hslot _ _

theorem Logged.created (hheld : Held s) (h : Logged labels s) (ht : t ∈ s.txns.rows)
    (hphase : t.phase = .writing draft statusId done []) :
    Logged (labels ++ [a]) ((s.commitCreation t draft statusId done).finish t (.ok statusId)) := by
  have hdone := done_eq hheld ht hphase
  have hstatus : t.statusId = some statusId := by simp [Txn.statusId, hphase]
  -- the creations afterwards are those before, some of them removed, and the new one
  have hmem : ∀ creation ∈ (s.commitCreation t draft statusId done).creations,
      (∃ before ∈ s.creations, creation = before.removeBy t) ∨
        creation = ⟨t.request, draft, statusId, none⟩ := by
    intro creation hcreation
    rcases List.mem_append.mp hcreation with hcreation | hcreation
    · obtain ⟨before, hbefore, rfl⟩ := List.mem_map.mp hcreation
      exact .inl ⟨before, hbefore, rfl⟩
    · exact .inr (List.mem_singleton.mp hcreation)
  constructor
  · constructor
    · change s.writes ++ done = _
      rw [State.finish, State.commitCreation, List.flatMap_append, List.flatMap_map, h.writes, hdone]
      simp
    · change (s.commitCreation t draft statusId done).statuses.Nodup
      rw [statuses_commitCreation hdone]
      refine List.nodup_append.mpr ⟨h.nodup, List.nodup_singleton _, fun other hother _ hnew heq => ?_⟩
      rw [List.mem_singleton] at hnew
      exact hheld.fresh t ht statusId hstatus (hnew ▸ heq ▸ hother)
    · refine List.pairwise_append.mpr ⟨List.pairwise_map.mpr (h.once.imp ?_), List.pairwise_singleton _ _, ?_⟩
      · intro earlier later hpair hslot
        rw [removeBy_request, removeBy_request] at hslot
        obtain ⟨now, hremoved, hread, hexpired⟩ := hpair hslot
        refine ⟨now, ?_, hread.mono, by rwa [removeBy_request]⟩
        rw [removeBy_of_removed (by simp [hremoved]), hremoved]
      · intro earlier hearlier later hlater hslot
        obtain ⟨before, hbefore, rfl⟩ := List.mem_map.mp hearlier
        rw [List.mem_singleton.mp hlater, removeBy_request] at hslot
        obtain ⟨now, hremoved, hread, hexpired⟩ := removed_of_slot hheld h ht hphase hbefore hslot
        exact ⟨now, hremoved, hread.mono, by rwa [removeBy_request]⟩
    · intro creation hcreation hcurrent
      rcases hmem creation hcreation with ⟨before, hbefore, rfl⟩ | rfl
      · by_cases hslot : before.request.slot = t.slot
        · obtain ⟨now, hremoved, -, -⟩ := removed_of_slot hheld h ht hphase hbefore hslot
          rw [hcurrent] at hremoved
          cases hremoved
        · rw [removeBy_of_ne hslot] at hcurrent ⊢
          obtain ⟨row, hrow, hisRow⟩ := h.current before hbefore hcurrent
          exact ⟨row, (keys_created_of_ne hslot).trans hrow, hisRow⟩
      · exact ⟨_, keys_created_self hdone, rfl, rfl, rfl⟩
    · intro slot row hrow
      by_cases hslot : slot = t.slot
      · subst hslot
        obtain rfl := Option.some.inj ((keys_created_self hdone).symm.trans hrow)
        exact ⟨⟨t.request, draft, statusId, none⟩, List.mem_append_right _ (List.mem_singleton_self _), rfl,
          rfl, rfl, rfl, rfl⟩
      · obtain ⟨creation, hcreation, hcurrent, rfl, hisRow⟩ :=
          h.origin slot row ((keys_created_of_ne hslot).symm.trans hrow)
        refine ⟨creation, List.mem_append_left _ ?_, hcurrent, rfl, hisRow⟩
        exact List.mem_map.mpr ⟨creation, hcreation, removeBy_of_ne hslot⟩
  · intro creation hcreation now hremoved
    rcases hmem creation hcreation with ⟨before, hbefore, rfl⟩ | rfl
    · by_cases hslot : before.request.slot = t.slot
      · obtain ⟨found, hfound, hread, hexpired⟩ := removed_of_slot hheld h ht hphase hbefore hslot
        rw [hremoved] at hfound
        obtain rfl := Option.some.inj hfound
        exact ⟨hread.mono, by rwa [removeBy_request]⟩
      · rw [removeBy_of_ne hslot] at hremoved ⊢
        obtain ⟨hread, hexpired⟩ := h.removed before hbefore now hremoved
        exact ⟨hread.mono, hexpired⟩
    · cases hremoved
  · intro u hu row now hdeleted
    exact (h.read u (mem_finish.mp hu).1 row now hdeleted).mono

end Created

theorem idempotent_empty : Logged [] State.empty where
  writes := rfl
  nodup := List.nodup_nil
  once := .nil
  current creation hcreation := by cases hcreation
  origin slot row hrow := by cases hrow
  removed creation hcreation := by cases hcreation
  read t ht := by cases ht

/-- A reading of the clock that a transaction keeps is its own or one of this step. -/
theorem Move.read {deleted : Option (KeyRow × ℤ)} {phase : Phase} {row : KeyRow} {now : ℤ}
    (h : Logged labels s) (ht : t ∈ s.txns.rows) (hmove : Move s a t deleted phase)
    (hrow : deleted = some (row, now) ∨ phase = .deleting row now) : Read (labels ++ [a]) now := by
  cases hmove with
  | expired found now' hphase hexpired hscan =>
    rcases hrow with hrow | hrow
    · exact (h.read t ht row now (.inl hrow)).mono
    · obtain ⟨-, rfl⟩ := Phase.deleting.inj hrow
      obtain ⟨id, rfl⟩ := hscan
      exact ⟨id, .inl (by simp)⟩
  | deleted found now' first hphase hfree hfound hexpired hread =>
    rcases hrow with hrow | hrow
    · obtain ⟨-, rfl⟩ := Prod.mk.inj (Option.some.inj hrow)
      rcases hread with rfl | ⟨id, rfl⟩
      · exact (h.read t ht found _ (.inr hphase)).mono
      · exact ⟨id, .inr (by simp)⟩
    · cases hrow
  | _ =>
    rcases hrow with hrow | hrow
    · exact (h.read t ht row now (.inl hrow)).mono
    · cases hrow

theorem Logged.step (hheld : Held s) (h : Logged labels s) (hchange : Change s a s') :
    Logged (labels ++ [a]) s' := by
  have hremoved : ∀ creation ∈ s.creations, ∀ now, creation.removed = some now →
      Read (labels ++ [a]) now ∧ creation.request.expiresAt ≤ now := by
    intro creation hcreation now hremoved
    obtain ⟨hread, hexpired⟩ := h.removed creation hcreation now hremoved
    exact ⟨hread.mono, hexpired⟩
  have hread : ∀ t ∈ s.txns.rows, ∀ row now, t.deleted = some (row, now) ∨ t.phase = .deleting row now →
      Read (labels ++ [a]) now := by
    intro t ht row now hrow
    exact (h.read t ht row now hrow).mono
  cases hchange with
  | rejected request now error hstart hinvalid =>
    exact ⟨h.toIdempotent.unchanged ⟨rfl, rfl, rfl⟩, hremoved, hread⟩
  | started request txns hinsert =>
    refine ⟨h.toIdempotent.unchanged ⟨rfl, rfl, rfl⟩, hremoved, fun u hu row now hrow => ?_⟩
    change u ∈ txns.rows at hu
    rw [(Table.get_of_insert hinsert).2, List.mem_append, List.mem_singleton] at hu
    rcases hu with hu | rfl
    · exact hread u hu row now hrow
    · rcases hrow with hrow | hrow <;> cases hrow
  | moved t deleted phase ht hmove =>
    refine ⟨h.toIdempotent.unchanged ⟨rfl, rfl, rfl⟩, hremoved, fun u hu row now hrow => ?_⟩
    rcases mem_put ht hu with rfl | ⟨hu, -⟩
    · exact hmove.read h ht hrow
    · exact hread u hu row now hrow
  | refused t error ht herror =>
    exact ⟨h.toIdempotent.unchanged ⟨rfl, rfl, rfl⟩, hremoved, fun u hu => hread u (mem_finish.mp hu).1⟩
  | replayed t row statusId ht hphase hresult =>
    exact ⟨h.toIdempotent.unchanged ⟨rfl, rfl, rfl⟩, hremoved, fun u hu => hread u (mem_finish.mp hu).1⟩
  | created t draft statusId done ht hphase => exact h.created hheld ht hphase

theorem run_held (hrun : Run (fun s a s' => s.step a = some s') .empty labels s) :
    Held s ∧ Logged labels s :=
  hrun.invariant (P := fun labels s => Held s ∧ Logged labels s) ⟨held_empty, idempotent_empty⟩
    fun _ _ _ _ _ h hstep => ⟨h.1.step (step_change hstep), h.2.step h.1 (step_change hstep)⟩

/-! ### Replies -/

/-- What a step does that answers a request, or none. -/
inductive Answered (s : State) (a : Action) (s' : State) : Prop where
  | none (hsame : Unchanged s s') (hreplies : s'.replies = s.replies)
  /-- A request that fails leaves what is committed as it was. -/
  | failed (request : IdempotencyKey) (error : WriteError) (hsame : Unchanged s s')
      (hreplies : s'.replies = s.replies ++ [⟨request, .error error⟩])
      (herror : error = .conflict ∨ (∃ id, a = .fail id error) ∨
        ∃ now, a = .start request now ∧ validateIdempotency request now = .error error)
  /-- The status of the creation that the key stands for. -/
  | replayed (request : IdempotencyKey) (creation : Creation) (hsame : Unchanged s s')
      (hreplies : s'.replies = s.replies ++ [⟨request, .ok creation.statusId⟩])
      (hcreation : creation ∈ s.creations) (hcurrent : creation.removed = none)
      (hslot : creation.request.slot = request.slot)
      (hfingerprint : creation.request.fingerprint = request.fingerprint)
  | created (t : Txn) (draft : Draft) (statusId : ℤ)
      (hreplies : s'.replies = s.replies ++ [⟨t.request, .ok statusId⟩])
      (hcreations : s'.creations =
        s.creations.map (Creation.removeBy t) ++ [⟨t.request, draft, statusId, Option.none⟩])
      (hothers : ∀ slot, slot ≠ t.request.slot → s'.keys slot = s.keys slot)

theorem Change.answered (hheld : Held s) (h : Logged labels s) (hchange : Change s a s') :
    Answered s a s' := by
  cases hchange with
  | rejected request now error hstart hinvalid =>
    exact .failed request error ⟨rfl, rfl, rfl⟩ rfl (.inr (.inr ⟨now, hstart, hinvalid⟩))
  | started request txns hinsert => exact .none ⟨rfl, rfl, rfl⟩ rfl
  | moved t deleted phase ht hmove => exact .none ⟨rfl, rfl, rfl⟩ rfl
  | refused t error ht herror =>
    exact .failed t.request error ⟨rfl, rfl, rfl⟩ rfl (herror.imp_right .inl)
  | replayed t row statusId ht hphase hresult =>
    have hok := (hheld.ok t ht).phase
    rw [hphase] at hok
    obtain ⟨-, hrow, hsame⟩ := hok
    obtain ⟨creation, hcreation, hcurrent, hslot, hisRow⟩ := h.origin t.slot row hrow
    rw [hrow, Option.bind_some, hisRow.statusId] at hresult
    obtain rfl := Option.some.inj hresult
    exact .replayed t.request creation ⟨rfl, rfl, rfl⟩ rfl hcreation hcurrent hslot
      (hisRow.fingerprint.symm.trans hsame)
  | created t draft statusId done ht hphase =>
    exact .created t draft statusId rfl rfl fun slot hslot => keys_created_of_ne hslot

end Rustodon.Statuses
