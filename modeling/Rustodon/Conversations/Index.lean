import Rustodon.Conversations.Steps
import Rustodon.Schemes.Runs

/-! @src mastodon/write_repository.rs, worker.rs | name:The index of direct conversations |
    scheme:tables,versions,runs | family:conversations

    Commits and failures keep the invariant, as long as no deletion passes by an upsert; where one does,
    a deleted status stays in the index. -/

namespace Rustodon.Conversations
open Schemes.Runs (Run)
open Schemes.Tables (Table)
open Schemes.Versions (Cell)

variable {s s' : State} {t u : Txn} {key : ConversationKey}

/-! ### Statuses after a commit -/

@[simp] theorem mark_key (ids : List ℤ) (status : Status) (account : ℤ) :
    (status.mark ids).key account = status.key account := by
  rw [Status.mark]
  split <;> rfl

@[simp] theorem mark_id (ids : List ℤ) (status : Status) : (status.mark ids).id = status.id := by
  rw [Status.mark]
  split <;> rfl

theorem live_of_mark {ids : List ℤ} {status : Status} (h : (status.mark ids).deleted = false) :
    status.id ∉ ids ∧ status.deleted = false := by
  rw [Status.mark] at h
  split at h
  · cases h
  · exact ⟨‹_›, h⟩

theorem mark_of_not_mem {ids : List ℤ} {status : Status} (h : status.id ∉ ids) : status.mark ids = status :=
  if_neg h

theorem id_of_statusFor (h : Inv s) {id : ℤ} {status : Status} (hstatus : s.statusFor t id = some status) :
    status.id = id := by
  rw [State.statusFor, Option.or_eq_some_iff] at hstatus
  rcases hstatus with hstatus | ⟨-, hstatus⟩
  · exact h.statuses id status hstatus
  · simpa using (Option.filter_eq_some_iff.mp hstatus).2

/-- The status that a transaction finds is committed, or its own. -/
theorem statusFor_cases {id : ℤ} {status : Status} (h : s.statusFor t id = some status) :
    s.status id = some status ∨ s.status id = none ∧ t.status = some status ∧ status.id = id := by
  rw [State.statusFor, Option.or_eq_some_iff] at h
  rcases h with h | ⟨hnone, h⟩
  · exact .inl h
  · obtain ⟨hown, hid⟩ := Option.filter_eq_some_iff.mp h
    exact .inr ⟨hnone, hown, by simpa using hid⟩

theorem status_applied {id : ℤ} : (s.applied t).status id = (s.statusFor t id).map (Status.mark t.deletes) := rfl

/-- What another transaction finds, after a commit. -/
theorem statusFor_applied (h : Inv s) (ht : t ∈ s.txns.rows) (hu : u ∈ s.txns.rows) (hid : u.id ≠ t.id)
    {id : ℤ} {status : Status} (hstatus : s.statusFor u id = some status) :
    ∃ status', (s.applied t).statusFor u id = some status' ∧
      (∀ account, status'.key account = status.key account) ∧
      (status'.deleted = false → status.deleted = false) := by
  rcases statusFor_cases hstatus with hold | ⟨hnone, hown, rfl⟩
  · refine ⟨status.mark t.deletes, statusFor_of_status ?_, fun account => mark_key _ _ account,
      fun hlive => (live_of_mark hlive).2⟩
    rw [status_applied, statusFor_of_status hold]
    rfl
  · have hother : s.statusFor t status.id = none := by
      cases hother : s.statusFor t status.id with
      | none => rfl
      | some other =>
        rcases statusFor_cases hother with hold | ⟨-, htown, hsame⟩
        · rw [hnone] at hold
          cases hold
        · exact absurd (h.own u hu t ht status other hown htown hsame.symm) hid
    refine ⟨status, ?_, fun _ => rfl, fun hlive => hlive⟩
    rw [State.statusFor, status_applied, hother, hown]
    simp

theorem cell_applied : (s.applied t).cell key = (s.cell key).commit t.id (s.commits + 1) := rfl

theorem cell_applied_of_holder (hid : u.id ≠ t.id) (hholder : (s.cell key).holder = some u.id) :
    (s.applied t).cell key = s.cell key := by
  rw [cell_applied, Cell.commit_of_ne]
  rw [hholder]
  exact fun hsame => hid (Option.some.inj hsame)

theorem covers_applied (hid : u.id ≠ t.id) {id : ℤ} (h : s.Covers u key id) : (s.applied t).Covers u key id := by
  rcases h with hrow | ⟨hholder, hmem⟩
  · exact .inl hrow
  · refine .inr ?_
    rw [cell_applied_of_holder hid hholder]
    exact ⟨hholder, hmem⟩

theorem coversLive_applied (h : Inv s) (ht : t ∈ s.txns.rows) (hu : u ∈ s.txns.rows) (hid : u.id ≠ t.id)
    {id : ℤ} (hcovers : s.CoversLive u id) : (s.applied t).CoversLive u id := by
  obtain ⟨hsome, hcovers⟩ := hcovers
  obtain ⟨status, hstatus⟩ := Option.isSome_iff_exists.mp hsome
  obtain ⟨status', hstatus', hkey', hlive'⟩ := statusFor_applied h ht hu hid hstatus
  rw [State.CoversLive, hstatus']
  refine ⟨rfl, fun other key hother hlive hkey => ?_⟩
  obtain rfl := Option.some.inj hother
  exact covers_applied hid (hcovers status key hstatus (hlive' hlive) (hkey' u.account ▸ hkey))

theorem finds_applied (h : Inv s) (ht : t ∈ s.txns.rows) (hu : u ∈ s.txns.rows) (hid : u.id ≠ t.id)
    {id : ℤ} (hfinds : s.Finds u key id) : (s.applied t).Finds u key id := by
  obtain ⟨status, hstatus, hkey⟩ := hfinds
  obtain ⟨status', hstatus', hkey', -⟩ := statusFor_applied h ht hu hid hstatus
  exact ⟨status', hstatus', (hkey' _).trans hkey⟩

/-- The versions of a row after a commit are among those before it. -/
theorem versions_applied {row : AccountConversation}
    (h : ((s.applied t).cell key).committed = some row ∨ ((s.applied t).cell key).current = some row) :
    (s.cell key).committed = some row ∨ (s.cell key).current = some row := by
  rw [cell_applied] at h
  by_cases hholder : (s.cell key).holder = some t.id
  · rw [Cell.commit_of_holder hholder] at h
    exact .inr (h.elim id id)
  · rw [Cell.commit_of_ne hholder] at h
    exact h

theorem mem_filteredFrom_applied (h : Inv s) (ht : t ∈ s.txns.rows) (hu : u ∈ s.txns.rows) (hid : u.id ≠ t.id)
    (hok : TxnOk s t) (hadvisory : u.advisory = true) {fromAccountId : ℤ} {n : Notification}
    (hn : n ∈ (s.applied t).filteredFrom u.account fromAccountId) :
    n ∈ s.filteredFrom u.account fromAccountId := by
  obtain ⟨hmem, hfiltered⟩ := List.mem_filter.mp hn
  rcases List.mem_append.mp hmem with hmem | hmem
  · obtain ⟨before, hbefore, rfl⟩ := List.mem_map.mp hmem
    rw [Notification.unfilter] at hfiltered ⊢
    split at hfiltered
    · simp at hfiltered
    · rename_i hnot
      rw [if_neg hnot]
      exact List.mem_filter.mpr ⟨hbefore, hfiltered⟩
  · rw [Option.mem_toList] at hmem
    obtain ⟨htadvisory, haccount, -⟩ := hok.notification n hmem
    have hsame : n.accountId = u.account := by
      simp only [Bool.and_eq_true, beq_iff_eq] at hfiltered
      exact hfiltered.1.1
    exact absurd (h.advisory u hu t ht hadvisory htadvisory (hsame.symm.trans haccount)) hid

theorem knows_applied (h : Inv s) (ht : t ∈ s.txns.rows) (hu : u ∈ s.txns.rows) (hid : u.id ≠ t.id)
    {work : Work} (hknows : s.Knows u work) : (s.applied t).Knows u work := by
  cases work with
  | upserting rows next =>
    cases next with
    | none => trivial
    | some fromAccountId =>
      refine ⟨hknows.1, fun n hn => ?_⟩
      exact coversLive_applied h ht hu hid
        (hknows.2 n (mem_filteredFrom_applied h ht hu hid (h.txns t ht) hknows.1 hn))
  | scanned ids after toLock locked =>
    obtain ⟨hafter, hfound, hnodup, hdisjoint, hlocked⟩ := hknows
    refine ⟨Nat.le_succ_of_le hafter, ?_, hnodup, hdisjoint, ?_⟩
    · intro key row hrow hversion hids
      rw [cell_applied] at hrow hversion ⊢
      by_cases hholder : (s.cell key).holder = some t.id
      · rw [Cell.commit_of_holder hholder] at hversion
        change s.commits + 1 ≤ after at hversion
        omega
      · rw [Cell.commit_of_ne hholder] at hrow hversion ⊢
        exact hfound key row hrow hversion hids
    · intro found hfound
      obtain ⟨hholder, hids⟩ := hlocked found hfound
      rw [cell_applied_of_holder hid hholder]
      exact ⟨hholder, hids⟩
  | read key rowId statusIds expected given =>
    exact fun hgiven => ⟨(hknows hgiven).1, fun row hrow => (hknows hgiven).2 row (versions_applied hrow)⟩
  | checked key rowId statusIds expected given last =>
    exact ⟨hknows.1, fun hgiven =>
      ⟨(hknows.2 hgiven).1, fun row hrow => (hknows.2 hgiven).2 row (versions_applied hrow)⟩⟩
  | notified statusId => exact hknows
  | unfiltering fromAccountId => exact hknows
  | _ => trivial

theorem isSome_applied {id : ℤ} (h : (s.status id).isSome = true) : ((s.applied t).status id).isSome = true := by
  obtain ⟨status, hstatus⟩ := Option.isSome_iff_exists.mp h
  rw [status_applied, statusFor_of_status hstatus]
  rfl

theorem holder_applied {i : ℕ} (hholder : ((s.applied t).cell key).holder = some i) :
    i ≠ t.id ∧ (s.applied t).cell key = s.cell key := by
  rw [cell_applied] at hholder ⊢
  refine ⟨?_, Cell.holder_of_commit hholder⟩
  rintro rfl
  exact Cell.holder_commit_ne hholder

theorem txnOk_applied (h : Inv s) (ht : t ∈ s.txns.rows) (hu : u ∈ s.txns.rows) (hid : u.id ≠ t.id) :
    TxnOk (s.applied t) u := by
  have hok := h.txns u hu
  constructor
  · intro row hrow
    obtain ⟨hshape, hfinds⟩ := hok.rows row hrow
    exact ⟨hshape, fun id hmem => ⟨(hfinds id hmem).1, finds_applied h ht hu hid (hfinds id hmem).2⟩⟩
  · exact fun id hmem => coversLive_applied h ht hu hid (hok.delivers id hmem)
  · intro n hn
    obtain ⟨hadvisory, haccount, hsome⟩ := hok.notification n hn
    exact ⟨hadvisory, haccount, isSome_applied hsome⟩
  · intro hidle key hholder
    rw [(holder_applied hholder).2] at hholder
    exact hok.idle hidle key hholder
  · exact hok.silent
  · exact knows_applied h ht hu hid hok.knows
  · intro status hstatus
    obtain ⟨hnone, hlive⟩ := hok.own status hstatus
    refine ⟨?_, hlive⟩
    cases hafter : (s.applied t).status status.id with
    | none => rfl
    | some other =>
      rw [status_applied] at hafter
      obtain ⟨before, hbefore, -⟩ := Option.map_eq_some_iff.mp hafter
      rcases statusFor_cases hbefore with hold | ⟨-, hown, hsame⟩
      · rw [hnone] at hold
        cases hold
      · exact absurd (h.own u hu t ht status before hstatus hown hsame.symm) hid

/-! ### Commits -/

section Commit

variable (h : Inv s) (ht : t ∈ s.txns.rows) (hfinished : t.work.finished = true)
  (hmeets : s.Meets (.commit t.id))

include h ht hfinished hmeets

theorem locked_of_finished : t.locked = [] := by
  rw [Txn.locked]
  split
  · rename_i ids after toLock locked hwork
    rw [hwork] at hfinished
    cases toLock <;> cases locked
    · rfl
    all_goals cases hfinished
  · rfl

/-- A status of a row that a transaction does not hold is not one that it deletes. -/
theorem not_deleted (hholder : (s.cell key).holder ≠ some t.id) {id : ℤ}
    (hid : id ∈ statusIdsOf (s.cell key).committed) : id ∉ t.deletes := by
  rw [Txn.deletes]
  split
  · rename_i ids after toLock locked hwork
    rw [hwork] at hfinished
    obtain ⟨rfl, rfl⟩ : toLock = [] ∧ locked = [] := by
      cases toLock <;> cases locked
      · exact ⟨rfl, rfl⟩
      all_goals cases hfinished
    have hknows := (h.txns t ht).knows
    rw [hwork] at hknows
    intro hdeleted
    cases hrow : (s.cell key).committed with
    | none =>
      rw [hrow] at hid
      cases hid
    | some row =>
      rw [hrow] at hid
      by_cases hversion : (s.cell key).version ≤ after
      · rcases hknows.2.1 key row hrow hversion ⟨id, hid, hdeleted⟩ with hlock | hheld
        · cases hlock
        · exact hholder hheld
      · exact (hmeets t (Table.mem_iff_get.mp ht)).2 ids after hwork key row hrow (not_le.mp hversion) hholder
          id hid hdeleted
  · exact List.not_mem_nil

theorem live_applied {id : ℤ} (hid : id ∈ statusIdsOf ((s.applied t).cell key).committed) :
    (s.applied t).Live key id := by
  have hold : id ∈ statusIdsOf (s.cell key).committed → id ∉ t.deletes → (s.applied t).Live key id := by
    intro hid hkept
    obtain ⟨status, hstatus, hlive, hkey⟩ := h.live key id hid
    refine ⟨status, ?_, hlive, hkey⟩
    rw [status_applied, statusFor_of_status hstatus, Option.map_some, mark_of_not_mem]
    rwa [h.statuses id status hstatus]
  rw [cell_applied] at hid
  by_cases hholder : (s.cell key).holder = some t.id
  · rw [Cell.commit_of_holder hholder] at hid
    have hheld := h.held_by ht hholder
    have hkept : id ∉ t.deletes := by
      intro hdeleted
      have hlocked := hheld.dropped id hid hdeleted
      rw [locked_of_finished h ht hfinished hmeets] at hlocked
      cases hlocked
    rcases hheld.added id hid with hbefore | ⟨hread, status, hstatus, hkey⟩
    · exact hold hbefore hkept
    · refine ⟨status, ?_, ?_, hkey⟩
      · rw [status_applied, hstatus, Option.map_some, mark_of_not_mem]
        rwa [id_of_statusFor h hstatus]
      · rcases statusFor_cases hstatus with hcommitted | ⟨-, hown, -⟩
        · exact (hmeets t (Table.mem_iff_get.mp ht)).1 id hread status hcommitted
        · exact ((h.txns t ht).own status hown).2
  · rw [Cell.commit_of_ne hholder] at hid
    exact hold hid (not_deleted h ht hfinished hmeets hholder hid)

theorem delivered_applied {delivery : ℤ × ℤ} (hmem : delivery ∈ (s.applied t).delivered) :
    ((s.applied t).status delivery.2).isSome = true ∧ ∀ status key,
      (s.applied t).status delivery.2 = some status → status.deleted = false →
        status.key delivery.1 = some key → delivery.2 ∈ statusIdsOf ((s.applied t).cell key).committed := by
  rcases List.mem_append.mp hmem with hmem | hmem
  · obtain ⟨hmem, hnotRemoved⟩ := List.mem_filter.mp hmem
    obtain ⟨hsome, hindexed⟩ := h.delivered delivery hmem
    refine ⟨isSome_applied hsome, fun status key hstatus hlive hkey => ?_⟩
    obtain ⟨before, hbefore⟩ := Option.isSome_iff_exists.mp hsome
    rw [status_applied, statusFor_of_status hbefore, Option.map_some] at hstatus
    obtain rfl := Option.some.inj hstatus
    obtain ⟨hkept, hlive⟩ := live_of_mark hlive
    rw [mark_key] at hkey
    have hid := hindexed before key hbefore hlive hkey
    rw [cell_applied]
    by_cases hholder : (s.cell key).holder = some t.id
    · rw [Cell.commit_of_holder hholder]
      rcases (h.held_by ht hholder).kept _ hid with hid | hdeleted | hremoved
      · exact hid
      · rw [h.statuses _ before hbefore] at hkept
        exact absurd hdeleted hkept
      · rw [hremoved, State.inConversation, hbefore] at hnotRemoved
        simp [hkey] at hnotRemoved
    · rw [Cell.commit_of_ne hholder]
      exact hid
  · obtain ⟨id, hid, rfl⟩ := List.mem_map.mp hmem
    obtain ⟨hsome, hcovers⟩ := (h.txns t ht).delivers id hid
    obtain ⟨before, hbefore⟩ := Option.isSome_iff_exists.mp hsome
    rw [status_applied, hbefore, Option.map_some]
    refine ⟨rfl, fun status key hstatus hlive hkey => ?_⟩
    obtain rfl := Option.some.inj hstatus
    rw [mark_key] at hkey
    rcases hcovers before key hbefore (live_of_mark hlive).2 hkey with ⟨row, hrow, -⟩ | ⟨hholder, hmem⟩
    · rw [Txn.rows] at hrow
      split at hrow
      · rename_i rows next hwork
        rw [hwork] at hfinished
        cases rows
        · cases hrow
        · cases hfinished
      · cases hrow
    · rw [cell_applied, Cell.commit_of_holder hholder]
      exact hmem

theorem Inv.applied : Inv (s.applied t) where
  settled key := (h.settled key).commit
  known key row hrow := h.known key row (versions_applied hrow)
  follows key row hrow row' hrow' := by
    rw [cell_applied] at hrow hrow'
    by_cases hholder : (s.cell key).holder = some t.id
    · rw [Cell.commit_of_holder hholder] at hrow hrow'
      obtain rfl := Option.some.inj (hrow.symm.trans hrow')
      exact ⟨fun _ => le_refl _, fun _ _ => rfl⟩
    · rw [Cell.commit_of_ne hholder] at hrow hrow'
      exact h.follows key row hrow row' hrow'
  live key id hid := live_applied h ht hfinished hmeets hid
  held key i hholder := by
    obtain ⟨hid, hcell⟩ := holder_applied hholder
    rw [hcell] at hholder
    obtain ⟨u, hu, rfl, hheld⟩ := h.held key i hholder
    refine ⟨u, Table.mem_erase.mpr ⟨hu, hid⟩, rfl, ?_, ?_, ?_⟩
    · rw [hcell]
      exact fun id hmem => (hheld.added id hmem).imp_right fun ⟨hread, hfinds⟩ =>
        ⟨hread, finds_applied h ht hu hid hfinds⟩
    · rw [hcell]
      exact hheld.kept
    · rw [hcell]
      exact hheld.dropped
  txns u hu := by
    obtain ⟨hu, hid⟩ := Table.mem_erase.mp hu
    exact txnOk_applied h ht hu hid
  ids u hu := h.ids u (Table.mem_erase.mp hu).1
  advisory u hu v hv := h.advisory u (Table.mem_erase.mp hu).1 v (Table.mem_erase.mp hv).1
  own u hu v hv := h.own u (Table.mem_erase.mp hu).1 v (Table.mem_erase.mp hv).1
  statuses id status hstatus := by
    obtain ⟨before, hbefore, rfl⟩ := Option.map_eq_some_iff.mp hstatus
    rw [mark_id]
    exact id_of_statusFor h hbefore
  versions key := by
    rw [cell_applied]
    by_cases hholder : (s.cell key).holder = some t.id
    · rw [Cell.commit_of_holder hholder]
      exact le_refl _
    · rw [Cell.commit_of_ne hholder]
      exact Nat.le_succ_of_le (h.versions key)
  notifications n hn := by
    rcases List.mem_append.mp hn with hn | hn
    · obtain ⟨before, hbefore, rfl⟩ := List.mem_map.mp hn
      have hsame : (before.unfilter t.unfiltered).statusId = before.statusId := by
        rw [Notification.unfilter]
        split <;> rfl
      rw [hsame]
      exact isSome_applied (h.notifications before hbefore)
    · rw [Option.mem_toList] at hn
      exact isSome_applied ((h.txns t ht).notification n hn).2.2
  delivered delivery hmem := delivered_applied h ht hfinished hmeets hmem

end Commit

/-! ### Failures -/

theorem cell_aborted : (s.aborted t).cell key = (s.cell key).abort t.id := rfl

theorem holder_aborted {i : ℕ} (hholder : ((s.aborted t).cell key).holder = some i) :
    i ≠ t.id ∧ (s.aborted t).cell key = s.cell key := by
  rw [cell_aborted] at hholder ⊢
  refine ⟨?_, Cell.holder_of_abort hholder⟩
  rintro rfl
  exact Cell.holder_abort_ne hholder

theorem cell_aborted_of_holder (hid : u.id ≠ t.id) (hholder : (s.cell key).holder = some u.id) :
    (s.aborted t).cell key = s.cell key := by
  rw [cell_aborted, Cell.abort_of_ne]
  rw [hholder]
  exact fun hsame => hid (Option.some.inj hsame)

theorem versions_aborted {row : AccountConversation}
    (h : ((s.aborted t).cell key).committed = some row ∨ ((s.aborted t).cell key).current = some row) :
    (s.cell key).committed = some row ∨ (s.cell key).current = some row := by
  rw [cell_aborted] at h
  by_cases hholder : (s.cell key).holder = some t.id
  · rw [Cell.abort_of_holder hholder] at h
    exact .inl (h.elim id id)
  · rw [Cell.abort_of_ne hholder] at h
    exact h

theorem coversLive_aborted (hid : u.id ≠ t.id) {id : ℤ} (h : s.CoversLive u id) :
    (s.aborted t).CoversLive u id := by
  refine ⟨h.1, fun status key hstatus hlive hkey => ?_⟩
  rcases h.2 status key hstatus hlive hkey with hrow | ⟨hholder, hmem⟩
  · exact .inl hrow
  · refine .inr ?_
    rw [cell_aborted_of_holder hid hholder]
    exact ⟨hholder, hmem⟩

theorem knows_aborted (hid : u.id ≠ t.id) {work : Work} (hknows : s.Knows u work) :
    (s.aborted t).Knows u work := by
  cases work with
  | upserting rows next =>
    cases next with
    | none => trivial
    | some fromAccountId => exact ⟨hknows.1, fun n hn => coversLive_aborted hid (hknows.2 n hn)⟩
  | scanned ids after toLock locked =>
    obtain ⟨hafter, hfound, hnodup, hdisjoint, hlocked⟩ := hknows
    refine ⟨hafter, ?_, hnodup, hdisjoint, ?_⟩
    · intro key row hrow hversion hids
      rw [cell_aborted, Cell.abort_committed] at hrow
      rw [cell_aborted, Cell.abort_version] at hversion
      rcases hfound key row hrow hversion hids with hlock | hholder
      · exact .inl hlock
      · exact .inr (cell_aborted_of_holder hid hholder ▸ hholder)
    · intro found hfound
      obtain ⟨hholder, hids⟩ := hlocked found hfound
      rw [cell_aborted_of_holder hid hholder]
      exact ⟨hholder, hids⟩
  | read key rowId statusIds expected given =>
    exact fun hgiven => ⟨(hknows hgiven).1, fun row hrow => (hknows hgiven).2 row (versions_aborted hrow)⟩
  | checked key rowId statusIds expected given last =>
    exact ⟨hknows.1, fun hgiven =>
      ⟨(hknows.2 hgiven).1, fun row hrow => (hknows.2 hgiven).2 row (versions_aborted hrow)⟩⟩
  | notified statusId => exact hknows
  | unfiltering fromAccountId => exact hknows
  | _ => trivial

theorem Inv.aborted (h : Inv s) (t : Txn) : Inv (s.aborted t) where
  settled key := (h.settled key).abort
  known key row hrow := h.known key row (versions_aborted hrow)
  follows key row hrow row' hrow' := by
    rw [cell_aborted, Cell.abort_committed] at hrow
    rw [cell_aborted] at hrow'
    by_cases hholder : (s.cell key).holder = some t.id
    · rw [Cell.abort_of_holder hholder] at hrow'
      obtain rfl := Option.some.inj (hrow.symm.trans hrow')
      exact ⟨fun _ => le_refl _, fun _ _ => rfl⟩
    · rw [Cell.abort_of_ne hholder] at hrow'
      exact h.follows key row hrow row' hrow'
  live key id hid := by
    rw [cell_aborted, Cell.abort_committed] at hid
    exact h.live key id hid
  held key i hholder := by
    obtain ⟨hid, hcell⟩ := holder_aborted hholder
    rw [hcell] at hholder
    obtain ⟨u, hu, rfl, hheld⟩ := h.held key i hholder
    refine ⟨u, Table.mem_erase.mpr ⟨hu, hid⟩, rfl, ?_, ?_, ?_⟩
    · rw [hcell]
      exact hheld.added
    · rw [hcell]
      exact hheld.kept
    · rw [hcell]
      exact hheld.dropped
  txns u hu := by
    obtain ⟨hu, hid⟩ := Table.mem_erase.mp hu
    have hok := h.txns u hu
    refine ⟨hok.rows, fun id hmem => coversLive_aborted hid (hok.delivers id hmem), hok.notification, ?_,
      hok.silent, knows_aborted hid hok.knows, hok.own⟩
    intro hidle key hholder
    rw [(holder_aborted hholder).2] at hholder
    exact hok.idle hidle key hholder
  ids u hu := h.ids u (Table.mem_erase.mp hu).1
  advisory u hu v hv := h.advisory u (Table.mem_erase.mp hu).1 v (Table.mem_erase.mp hv).1
  own u hu v hv := h.own u (Table.mem_erase.mp hu).1 v (Table.mem_erase.mp hv).1
  statuses := h.statuses
  versions key := by
    rw [cell_aborted, Cell.abort_version]
    exact h.versions key
  notifications := h.notifications
  delivered delivery hmem := by
    refine (h.delivered delivery hmem).imp_right fun hindexed status key hstatus hlive hkey => ?_
    rw [cell_aborted, Cell.abort_committed]
    exact hindexed status key hstatus hlive hkey

/-! ### Beginnings -/

/-- A transaction that begins with neither a status nor a notification of its own. -/
theorem Inv.begin_plain {account : ℤ} {advisory : Bool} {work : Work} (h : Inv s)
    (hrows : ∀ rows next, work ≠ .upserting rows next)
    (hknows : s.Knows ⟨s.nextTxn, account, advisory, none, none, [], [], [], work⟩ work)
    (hadvisory : advisory = true → s.unlocked account = true)
    (hstep : s.begin ⟨0, account, advisory, none, none, [], [], [], work⟩ = some s') : Inv s' := by
  have hrows : Txn.rows ⟨s.nextTxn, account, advisory, none, none, [], [], [], work⟩ = [] := by
    rw [Txn.rows]
    split
    · rename_i rows next hwork
      exact absurd hwork (hrows rows next)
    · rfl
  refine h.begin (t := ⟨s.nextTxn, account, advisory, none, none, [], [], [], work⟩) rfl hrows rfl ?_ hknows
    ?_ hadvisory ?_ hstep
  · intro n hn
    cases hn
  · intro status hstatus
    cases hstatus
  · intro u _ status other hstatus
    cases hstatus

theorem Inv.create_status {status : Status} (h : Inv s) (hstep : s.createStatus status = some s') : Inv s' := by
  unfold State.createStatus at hstep
  split at hstep
  · cases hstep
  · rename_i hnew
    simp only [Bool.or_eq_true, not_or, Bool.not_eq_true, Option.isSome_eq_false_iff, Option.isNone_iff_eq_none]
      at hnew
    obtain ⟨⟨hnone, hothers⟩, hlive⟩ := hnew
    refine h.begin (t := ⟨s.nextTxn, status.accountId, false, some status, none, [], [], [], _⟩) rfl ?_ rfl ?_ ?_
      ?_ ?_ ?_ hstep
    · rw [Txn.rows]
      split
      · rename_i rows next hwork
        dsimp only at hwork
        split at hwork <;> cases hwork
      · rfl
    · intro n hn
      cases hn
    · dsimp only
      split <;> trivial
    · rintro _ ⟨⟩
      exact ⟨hnone, hlive⟩
    · intro hfalse
      cases hfalse
    · rintro u hu _ other ⟨⟩ hother heq
      rw [List.any_eq_false] at hothers
      exact hothers u hu (by simp [hother, heq])

theorem Inv.notify {account statusId : ℤ} {mention filtered : Bool} (h : Inv s)
    (hstep : s.notify account statusId mention filtered = some s') : Inv s' := by
  unfold State.notify at hstep
  split at hstep
  · cases hstep
  · rename_i hlocked
    have hunlocked : s.unlocked account = true := by simpa using hlocked
    split at hstep
    · split at hstep
      · rename_i status hstatus
        split at hstep
        · cases hstep
        · refine h.begin (t := ⟨s.nextTxn, account, true, none,
            some ⟨account, status.accountId, statusId, filtered⟩, [], [], [], _⟩) rfl ?_ rfl ?_ ?_ ?_
            (fun _ => hunlocked) ?_ hstep
          · rw [Txn.rows]
            cases filtered <;> rfl
          · rintro _ ⟨⟩
            exact ⟨rfl, rfl, by rw [hstatus]; rfl⟩
          · cases filtered
            · rintro _ ⟨⟩
              rfl
            · trivial
          · intro status hnone
            cases hnone
          · intro u _ status other hnone
            cases hnone
      · cases hstep
    · refine h.begin_plain ?_ ?_ (fun _ => hunlocked) hstep
      · intro rows next
        cases filtered <;> simp
      · cases filtered
        · intro n hn
          cases hn
        · trivial

theorem Inv.unfilter {account fromAccountId : ℤ} (h : Inv s)
    (hstep : s.unfilter account fromAccountId = some s') : Inv s' := by
  unfold State.unfilter at hstep
  split at hstep
  · rename_i hunlocked
    refine h.begin_plain ?_ ?_ (fun _ => hunlocked) hstep
    · rintro rows next ⟨⟩
    · rfl
  · cases hstep

theorem Inv.delete_statuses {ids : List ℤ} (h : Inv s) (hstep : s.deleteStatuses ids = some s') : Inv s' := by
  refine h.begin_plain ?_ ?_ (fun hfalse => by cases hfalse) hstep
  · rintro rows next ⟨⟩
  · trivial

theorem Inv.read_unread {expected : Option ℕ} (h : Inv s) (hstep : s.readUnread key expected = some s') :
    Inv s' := by
  unfold State.readUnread at hstep
  split at hstep
  · rename_i row hrow
    refine h.begin_plain (fun rows next hfalse => by cases hfalse) ?_ (fun hfalse => by cases hfalse) hstep
    intro hgiven
    obtain rfl : expected = none := by simpa using hgiven
    refine ⟨(h.known key row (.inl hrow)).2.1, fun other hother => ?_⟩
    rcases hother with hother | hother
    · obtain rfl := Option.some.inj (hrow.symm.trans hother)
      exact ⟨fun _ => le_refl _, fun _ _ => rfl⟩
    · exact h.follows key row hrow other hother
  · cases hstep

theorem Inv.read_removal (h : Inv s) (hstep : s.readRemoval key = some s') : Inv s' := by
  unfold State.readRemoval at hstep
  split at hstep
  · refine h.begin_plain ?_ ?_ (fun hfalse => by cases hfalse) hstep
    · rintro rows next ⟨⟩
    · trivial
  · cases hstep

/-! ### Runs -/

theorem Inv.step {a : Action} (h : Inv s) (hmeets : s.Meets a) (hstep : s.step a = some s') : Inv s' := by
  cases a with
  | createStatus status => exact h.create_status hstep
  | notify account statusId mention filtered => exact h.notify hstep
  | unfilter account fromAccountId => exact h.unfilter hstep
  | deleteStatuses ids => exact h.delete_statuses hstep
  | readUnread key expected => exact h.read_unread hstep
  | readRemoval key => exact h.read_removal hstep
  | index id =>
    obtain ⟨t, ht, hstep⟩ := Option.bind_eq_some_iff.mp hstep
    exact h.index (Table.mem_of_get ht) hstep
  | write id =>
    obtain ⟨t, ht, hstep⟩ := Option.bind_eq_some_iff.mp hstep
    exact h.write (Table.mem_of_get ht) hstep
  | unfilterRows id =>
    obtain ⟨t, ht, hstep⟩ := Option.bind_eq_some_iff.mp hstep
    exact h.unfilter_rows (Table.mem_of_get ht) hstep
  | scan id =>
    obtain ⟨t, ht, hstep⟩ := Option.bind_eq_some_iff.mp hstep
    exact h.scan (Table.mem_of_get ht) hstep
  | lockRow id key =>
    obtain ⟨t, ht, hstep⟩ := Option.bind_eq_some_iff.mp hstep
    exact h.lock_row (Table.mem_of_get ht) hstep
  | rewriteRow id =>
    obtain ⟨t, ht, hstep⟩ := Option.bind_eq_some_iff.mp hstep
    exact h.rewrite_row (Table.mem_of_get ht) hstep
  | checkLast id =>
    obtain ⟨t, ht, hstep⟩ := Option.bind_eq_some_iff.mp hstep
    exact h.check_last (Table.mem_of_get ht) hstep
  | updateUnread id unread =>
    obtain ⟨t, ht, hupdate⟩ := Option.bind_eq_some_iff.mp hstep
    obtain rfl : t.id = id := Table.key_of_get ht
    exact h.update_unread (Table.mem_of_get ht) hmeets hupdate
  | removeRow id =>
    obtain ⟨t, ht, hstep⟩ := Option.bind_eq_some_iff.mp hstep
    exact h.remove_row (Table.mem_of_get ht) hstep
  | commit id =>
    obtain ⟨t, ht, hcommit⟩ := Option.bind_eq_some_iff.mp hstep
    obtain rfl : t.id = id := Table.key_of_get ht
    unfold State.commit at hcommit
    split at hcommit
    · rename_i hfinished
      obtain rfl := Option.some.inj hcommit
      exact h.applied (Table.mem_of_get ht) hfinished hmeets
    · cases hcommit
  | fail id =>
    obtain ⟨t, -, rfl⟩ := Option.map_eq_some_iff.mp hstep
    exact h.aborted t

/-- The index: every row has an array in order with its last element, of live statuses of its
    conversation, and every live status that has been delivered is in its row. -/
structure Indexed (s : State) : Prop where
  shape : ∀ key row, (s.cell key).committed = some row → row.Shape
  live : ∀ key row, (s.cell key).committed = some row → ∀ id ∈ row.statusIds, s.Live key id
  delivered : ∀ account id, (account, id) ∈ s.delivered → ∀ key, s.Live key id → key.accountId = account →
    ∃ row, (s.cell key).committed = some row ∧ row.statusIds.count id = 1

theorem Inv.indexed (h : Inv s) : Indexed s where
  shape key row hrow := (h.known key row (.inl hrow)).2.2
  live key row hrow id hid := h.live key id (by rw [hrow]; exact hid)
  delivered account id hmem key hlive haccount := by
    obtain ⟨status, hstatus, hlive, hkey⟩ := hlive
    subst haccount
    have hid := (h.delivered _ hmem).2 status key hstatus hlive hkey
    cases hrow : (s.cell key).committed with
    | none =>
      rw [hrow] at hid
      cases hid
    | some row =>
      rw [hrow] at hid
      have hnodup : row.statusIds.Nodup := (h.known key row (.inl hrow)).2.2.increasing.imp ne_of_lt
      exact ⟨row, rfl, List.count_eq_one_of_mem hnodup hid⟩

/-- A notification is indexed while the status is deleted: the deletion does not find the row. -/
def passing : List Action :=
  [.createStatus ⟨1, 2, 3, some 7, [1], false, false⟩, .commit 0, .notify 1 1 true false, .index 1,
    .deleteStatuses [1], .scan 2, .commit 2, .write 1, .commit 1]

theorem passing_isSome : (passing.foldlM State.step .empty).isSome = true := by decide

/-- A step that can be seen to meet the condition: what it commits has been read as live, and it deletes
    nothing. -/
def State.quiet (s : State) : Action → Bool
  | .commit id => (s.txns.get id).all fun t =>
    t.work.finished && (t.read.all fun statusId => (s.status statusId).all fun status => !status.deleted) &&
      match t.work with
      | .scanned .. => false
      | _ => true
  | .updateUnread .. => false
  | _ => true

theorem meets_of_quiet {a : Action} (h : s.quiet a = true) : s.Meets a := by
  cases a with
  | commit id =>
    intro t ht
    rw [State.quiet, ht, Option.all_some] at h
    simp only [Bool.and_eq_true, List.all_eq_true] at h
    obtain ⟨⟨-, hread⟩, hwork⟩ := h
    refine ⟨fun statusId hid status hstatus => ?_, fun ids after hscanned => ?_⟩
    · have hlive := hread statusId hid
      rw [hstatus] at hlive
      simpa using hlive
    · rw [hscanned] at hwork
      cases hwork
  | updateUnread id unread => cases h
  | _ => trivial

/-- A status of an account that has been mentioned twice, and of its author. -/
def delivering : List Action :=
  [.createStatus ⟨1, 2, 3, some 7, [1], true, false⟩, .index 0, .write 0, .commit 0, .notify 1 1 true false,
    .index 1, .write 1, .commit 1, .createStatus ⟨4, 2, 3, some 7, [1], true, false⟩, .index 2, .write 2,
    .commit 2, .notify 1 4 true false, .index 3, .write 3, .commit 3]

def State.quietStep (s : State) (a : Action) : Option State := if s.quiet a then s.step a else none

theorem delivering_isSome : (delivering.foldlM State.quietStep .empty).isSome = true := by with_unfolding_all decide

end Rustodon.Conversations
