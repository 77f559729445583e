import Rustodon.Conversations.Invariant

/-! @src mastodon/write_repository.rs, worker.rs | name:Steps on direct conversations |
    scheme:tables,versions | family:conversations

    Every step but a commit keeps the invariant. -/

namespace Rustodon.Conversations
open Schemes.Tables (Table)
open Schemes.Versions (Cell)

variable {s s' : State} {t t' u : Txn} {key : ConversationKey}

theorem mem_put (ht : t ∈ s.txns.rows) (hid : t'.id = t.id) :
    u ∈ (s.put t').txns.rows ↔ u = t' ∨ u ∈ s.txns.rows ∧ u.id ≠ t.id := by
  have hself : ∀ id, id = t'.id → ({ t' with id } : Txn) = t' := by
    rintro _ rfl
    rfl
  constructor
  · intro hu
    obtain ⟨before, hbefore, rfl⟩ := List.mem_map.mp hu
    by_cases hsame : before.id = t'.id
    · rw [if_pos hsame]
      exact .inl (hself before.id hsame)
    · rw [if_neg hsame]
      exact .inr ⟨hbefore, fun h => hsame (h.trans hid.symm)⟩
  · rintro (rfl | ⟨hu, hne⟩)
    · exact List.mem_map.mpr ⟨t, ht, (if_pos hid.symm).trans (hself t.id hid.symm)⟩
    · exact List.mem_map.mpr ⟨u, hu, if_neg fun h => hne (h.trans hid)⟩

/-- The same transaction, with other work. -/
structure Same (t t' : Txn) : Prop where
  id : t'.id = t.id
  account : t'.account = t.account
  advisory : t'.advisory = t.advisory
  own : t'.status = t.status
  notification : t'.notification = t.notification

theorem touch_put (ht : t ∈ s.txns.rows) (hsame : Same t t') : Touch s (s.put t') t t' where
  status := rfl
  notifications := rfl
  delivered := rfl
  commits := rfl
  nextTxn := rfl
  nextRow := le_refl _
  keys _ hkey := hkey
  txns u hu := (mem_put ht hsame.id).mp hu
  others u hu hid := (mem_put ht hsame.id).mpr (.inr ⟨hu, hid⟩)
  self := (mem_put ht hsame.id).mpr (.inl rfl)
  id := hsame.id
  account := hsame.account
  advisory := hsame.advisory
  own := hsame.own
  notification := hsame.notification
  committed _ := rfl
  version _ := rfl
  cells _ := .inl rfl
  follows _ := follows_refl

theorem setCell_self {cell : Cell (Option AccountConversation)} : (s.setCell key cell).cell key = cell :=
  Function.update_self _ _ _

theorem setCell_of_ne {cell : Cell (Option AccountConversation)} {other : ConversationKey}
    (h : other ≠ key) : (s.setCell key cell).cell other = s.cell other :=
  Function.update_of_ne h _ _

theorem touch_cell (cell : Cell (Option AccountConversation)) (ht : t ∈ s.txns.rows) (hsame : Same t t')
    (hfree : (s.cell key).free t.id = true) (hcommitted : cell.committed = (s.cell key).committed)
    (hversion : cell.version = (s.cell key).version) (hholder : cell.holder = some t.id)
    (hfollows : Follows s.nextRow (s.cell key).current cell.current) :
    Touch s ((s.setCell key cell).put t') t t' where
  status := rfl
  notifications := rfl
  delivered := rfl
  commits := rfl
  nextTxn := rfl
  nextRow := le_refl _
  keys _ hkey := hkey
  txns u hu := (mem_put ht hsame.id).mp hu
  others u hu hid := (mem_put ht hsame.id).mpr (.inr ⟨hu, hid⟩)
  self := (mem_put ht hsame.id).mpr (.inl rfl)
  id := hsame.id
  account := hsame.account
  advisory := hsame.advisory
  own := hsame.own
  notification := hsame.notification
  committed other := by
    change ((s.setCell key cell).cell other).committed = _
    by_cases hkey : other = key
    · rw [hkey, setCell_self, hcommitted]
    · rw [setCell_of_ne hkey]
  version other := by
    change ((s.setCell key cell).cell other).version = _
    by_cases hkey : other = key
    · rw [hkey, setCell_self, hversion]
    · rw [setCell_of_ne hkey]
  cells other := by
    change (s.setCell key cell).cell other = _ ∨ _ ∧ ((s.setCell key cell).cell other).holder = _
    by_cases hkey : other = key
    · rw [hkey, setCell_self]
      exact .inr ⟨hfree, hholder⟩
    · exact .inl (setCell_of_ne hkey)
  follows other := by
    change Follows _ _ ((s.setCell key cell).cell other).current
    by_cases hkey : other = key
    · rw [hkey, setCell_self]
      exact hfollows
    · rw [setCell_of_ne hkey]
      exact follows_refl

theorem touch_write {row : Option AccountConversation} (ht : t ∈ s.txns.rows) (hsame : Same t t')
    (hfree : (s.cell key).free t.id = true) (hfollows : Follows s.nextRow (s.cell key).current row) :
    Touch s ((s.setCell key ((s.cell key).write t.id row)).put t') t t' :=
  touch_cell ((s.cell key).write t.id row) ht hsame hfree rfl rfl rfl hfollows

theorem Touch.grow {keys : List ConversationKey} {nextRow : ℕ} (h : Touch s s' t t')
    (hkeys : ∀ key ∈ s'.keys, key ∈ keys) (hnext : s'.nextRow ≤ nextRow) :
    Touch s { s' with keys, nextRow } t t' :=
  { h with
    nextRow := h.nextRow.trans hnext
    keys := fun key hkey => hkeys key (h.keys key hkey) }

/-- What the transaction has done to a row that the step leaves alone. -/
theorem Touch.held_self (h : Touch s s' t t') (hcell : s'.cell key = s.cell key)
    (hread : ∀ id ∈ t.read, id ∈ t'.read) (hdeletes : t'.deletes = t.deletes)
    (hremoves : t'.removes = t.removes)
    (hlocked : key ∈ t.locked.map Prod.fst → key ∈ t'.locked.map Prod.fst) (hheld : Held s t key) :
    Held s' t' key := by
  constructor
  · intro id hmem
    rw [hcell] at hmem ⊢
    refine (hheld.added id hmem).imp_right fun ⟨hid, hfinds⟩ => ⟨hread id hid, ?_⟩
    rw [State.Finds, h.statusFor_self]
    exact hfinds
  · rw [hcell, hdeletes, hremoves]
    exact hheld.kept
  · intro id hmem hdeleted
    rw [hcell] at hmem
    exact hlocked (hheld.dropped id hmem (hdeletes ▸ hdeleted))

theorem statusFor_of_status {id : ℤ} {status : Status} (h : s.status id = some status) :
    s.statusFor t id = some status := by
  rw [State.statusFor, h]
  rfl

/-- A step that leaves the rows alone keeps the invariant, if it keeps what concerns its transaction. -/
theorem Inv.put (h : Inv s) (ht : t ∈ s.txns.rows) (hsame : Same t t')
    (hheld : ∀ key, (s.cell key).holder = some t.id → Held (s.put t') t' key) (hok : TxnOk (s.put t') t') :
    Inv (s.put t') :=
  h.touch ht (touch_put ht hsame) (fun key row hrow => h.known key row (.inr hrow)) hheld hok

/-! ### Upserts -/

/-- A transaction that has read the rows that it is to upsert. -/
theorem Inv.index_rows {read delivers : List ℤ} {rows : List Direct} {next : Option ℤ} (h : Inv s)
    (ht : t ∈ s.txns.rows) (hidle : t.work.idle = true)
    (hrows : ∀ row ∈ rows, row.Shape ∧ ∀ id ∈ row.statusIds, id ∈ read ∧ s.Finds t row.key id)
    (hdelivers : ∀ id ∈ delivers, (s.statusFor t id).isSome = true ∧ ∀ status key,
      s.statusFor t id = some status → status.deleted = false → status.key t.account = some key →
        ∃ row ∈ rows, row.key = key ∧ id ∈ row.statusIds)
    (hnext : ∀ fromAccountId, next = some fromAccountId → t.advisory = true ∧
      ∀ n ∈ s.filteredFrom t.account fromAccountId, (s.statusFor t n.statusId).isSome = true ∧
        ∀ status key, s.statusFor t n.statusId = some status → status.deleted = false →
          status.key t.account = some key → ∃ row ∈ rows, row.key = key ∧ n.statusId ∈ row.statusIds) :
    Inv (s.put { t with read, delivers, work := .upserting rows next }) := by
  have hok := h.txns t ht
  refine h.put ht ⟨rfl, rfl, rfl, rfl, rfl⟩ (fun key hholder => absurd hholder (hok.idle hidle key)) ?_
  constructor
  · exact hrows
  · intro id hid
    obtain ⟨hsome, hcovers⟩ := hdelivers id hid
    exact ⟨hsome, fun status key hstatus hlive hkey => .inl (hcovers status key hstatus hlive hkey)⟩
  · exact hok.notification
  · intro hfalse
    cases hfalse
  · intro hfalse
    cases hfalse
  · cases next with
    | none => trivial
    | some fromAccountId =>
      obtain ⟨hadvisory, hcovers⟩ := hnext fromAccountId rfl
      refine ⟨hadvisory, fun n hn => ?_⟩
      obtain ⟨hsome, hcovers⟩ := hcovers n hn
      exact ⟨hsome, fun status key hstatus hlive hkey => .inl (hcovers status key hstatus hlive hkey)⟩
  · exact hok.own

theorem Inv.index (h : Inv s) (ht : t ∈ s.txns.rows) (hstep : s.index t = some s') : Inv s' := by
  have hok := h.txns t ht
  unfold State.index at hstep
  split at hstep
  · rename_i hwork
    split at hstep
    · rename_i status hstatus
      obtain rfl := Option.some.inj hstep
      have hfinds : s.statusFor t status.id = some status := by
        rw [State.statusFor, (hok.own status hstatus).1, hstatus]
        simp
      refine h.index_rows ht (by rw [hwork]; rfl) ?_ ?_ (fun _ hnone => by cases hnone)
      · intro row hrow
        obtain ⟨-, hkey, hids⟩ := mem_direct hrow
        refine ⟨shape_direct hrow, fun id hid => ?_⟩
        rw [hids, List.mem_singleton] at hid
        subst hid
        exact ⟨List.mem_singleton_self _, status, hfinds, (accountId_of_key hkey).symm ▸ hkey⟩
      · intro id hid
        obtain rfl := List.mem_singleton.mp hid
        refine ⟨by rw [hfinds]; rfl, fun other key hother hlive hkey => ?_⟩
        obtain rfl := Option.some.inj (hfinds.symm.trans hother)
        exact direct_of_key hlive hkey
    · cases hstep
  · rename_i statusId hwork
    obtain rfl := Option.some.inj hstep
    have hrows : ∀ row ∈ ((s.status statusId).map fun status => status.direct t.account).getD [],
        ∃ status, s.status statusId = some status ∧ row ∈ status.direct t.account := by
      intro row hrow
      cases hstatus : s.status statusId with
      | none =>
        rw [hstatus] at hrow
        cases hrow
      | some status =>
        rw [hstatus] at hrow
        exact ⟨status, rfl, hrow⟩
    refine h.index_rows ht (by rw [hwork]; rfl) ?_ ?_ (fun _ hnone => by cases hnone)
    · intro row hrow
      obtain ⟨status, hstatus, hdirect⟩ := hrows row hrow
      obtain ⟨-, hkey, hids⟩ := mem_direct hdirect
      refine ⟨shape_direct hdirect, fun id hid => ⟨List.mem_flatMap.mpr ⟨row, hrow, hid⟩, ?_⟩⟩
      rw [hids, List.mem_singleton, h.statuses statusId status hstatus] at hid
      subst hid
      exact ⟨status, statusFor_of_status hstatus, (accountId_of_key hkey).symm ▸ hkey⟩
    · intro id hid
      obtain ⟨n, hn, rfl⟩ := List.mem_map.mp hid
      rw [Option.mem_toList] at hn
      have hknows := hok.knows
      rw [hwork] at hknows
      have hstatusId := hknows n hn
      obtain ⟨status, hstatus⟩ := Option.isSome_iff_exists.mp (hok.notification n hn).2.2
      rw [statusFor_of_status hstatus]
      refine ⟨rfl, fun other key hother hlive hkey => ?_⟩
      obtain rfl := Option.some.inj hother
      have hid := h.statuses _ status hstatus
      rw [← hstatusId, hstatus]
      obtain ⟨row, hrow, hrowKey, hmem⟩ := direct_of_key hlive hkey
      exact ⟨row, hrow, hrowKey, hid ▸ hmem⟩
  · rename_i fromAccountId hwork
    obtain rfl := Option.some.inj hstep
    have hknows := hok.knows
    rw [hwork] at hknows
    refine h.index_rows ht (by rw [hwork]; rfl) ?_ ?_ ?_
    · intro row hrow
      refine ⟨shape_grouped hrow, fun id hid => ?_⟩
      obtain ⟨status, hmem, rfl, hkey⟩ := mem_grouped hrow hid
      refine ⟨List.mem_map_of_mem hmem, status, ?_, (accountId_of_key hkey).symm ▸ hkey⟩
      obtain ⟨n, -, hn⟩ := List.mem_filterMap.mp hmem
      obtain ⟨hstatus, -⟩ := Option.filter_eq_some_iff.mp hn
      rw [h.statuses _ status hstatus]
      exact statusFor_of_status hstatus
    · intro id hid
      rw [hok.silent (by rw [hwork]; rfl)] at hid
      cases hid
    · rintro _ ⟨⟩
      refine ⟨hknows, fun n hn => ?_⟩
      obtain ⟨status, hstatus⟩ := Option.isSome_iff_exists.mp (h.notifications n (List.mem_of_mem_filter hn))
      rw [statusFor_of_status hstatus]
      refine ⟨rfl, fun other key hother hlive hkey => ?_⟩
      obtain rfl := Option.some.inj hother
      have hid := h.statuses _ status hstatus
      have hread : (s.status n.statusId).filter (fun status => !status.deleted) = some status := by
        rw [hstatus, Option.filter_some, hlive]
        rfl
      have hmem : status ∈ (s.filteredFrom t.account fromAccountId).filterMap fun n =>
          (s.status n.statusId).filter fun status => !status.deleted :=
        List.mem_filterMap.mpr ⟨n, hn, hread⟩
      obtain ⟨row, hrow, hrowKey, hmem⟩ := grouped_of_key hmem hkey
      exact ⟨row, hrow, hrowKey, hid ▸ hmem⟩
  · cases hstep

theorem follows_upsert {old : Option AccountConversation} {new : Direct} {next : ℕ} :
    Follows next old (some (upsert old new next)) := by
  rintro row' ⟨⟩
  cases old with
  | none => exact .inl rfl
  | some old =>
    refine .inr ⟨old, rfl, ?_⟩
    rw [upsert]
    split
    · exact ⟨rfl, le_refl _, fun _ => rfl⟩
    · refine ⟨rfl, Nat.le_succ _, fun hsame => ?_⟩
      change old.lockVersion = old.lockVersion + 1 at hsame
      omega

theorem Inv.write (h : Inv s) (ht : t ∈ s.txns.rows) (hstep : s.write t = some s') : Inv s' := by
  have hok := h.txns t ht
  unfold State.write at hstep
  split at hstep
  · rename_i row rows next hwork
    split at hstep
    · rename_i hfree
      obtain rfl := Option.some.inj hstep
      have hrow : row ∈ t.rows := by simp [Txn.rows, hwork]
      obtain ⟨hshape, hfinds⟩ := hok.rows row hrow
      set cell := (s.cell row.key).write t.id (some (upsert (s.cell row.key).current row s.nextRow)) with hcell
      set t' : Txn := { t with work := .upserting rows next } with ht'
      have htouch : Touch s { (s.setCell row.key cell).put t' with
          keys := row.key :: s.keys, nextRow := s.nextRow + 1 } t t' := by
        have htouch : Touch s ((s.setCell row.key cell).put t') t t' :=
          touch_write ht ⟨rfl, rfl, rfl, rfl, rfl⟩ hfree follows_upsert
        exact htouch.grow (fun key hkey => List.mem_cons_of_mem _ hkey) (Nat.le_succ _)
      have hself : (s.setCell row.key cell).cell row.key = cell := setCell_self
      -- the row that has been written covers what it was to cover
      have hcovers : ∀ key id, s.Covers t key id →
          State.Covers { (s.setCell row.key cell).put t' with
            keys := row.key :: s.keys, nextRow := s.nextRow + 1 } t' key id := by
        rintro key id (⟨other, hother, rfl, hid⟩ | ⟨hholder, hid⟩)
        · rw [Txn.rows, hwork] at hother
          rcases List.mem_cons.mp hother with rfl | hother
          · refine .inr ?_
            change ((s.setCell other.key cell).cell other.key).holder = _ ∧
              id ∈ statusIdsOf ((s.setCell other.key cell).cell other.key).current
            rw [hself]
            exact ⟨rfl, mem_upsert.mpr (.inr hid)⟩
          · exact .inl ⟨other, hother, rfl, hid⟩
        · refine .inr ?_
          change ((s.setCell row.key cell).cell key).holder = _ ∧
            id ∈ statusIdsOf ((s.setCell row.key cell).cell key).current
          by_cases hkey : key = row.key
          · subst hkey
            rw [hself]
            exact ⟨rfl, mem_upsert.mpr (.inl hid)⟩
          · rw [setCell_of_ne hkey]
            exact ⟨hholder, hid⟩
      refine h.touch ht htouch ?_ ?_ ?_
      · intro key other hother
        change ((s.setCell row.key cell).cell key).current = _ at hother
        by_cases hkey : key = row.key
        · subst hkey
          rw [hself] at hother
          obtain rfl := Option.some.inj hother
          refine ⟨List.mem_cons_self .., ?_, shape_upsert (fun old hold => (h.known _ old (.inr hold)).2.2) hshape⟩
          rcases follows_upsert _ hother with hnew | ⟨old, hold, hid, -⟩
          · rw [hnew]
            exact Nat.lt_succ_self _
          · exact hid ▸ (h.known _ old (.inr hold)).2.1.trans (Nat.lt_succ_self _)
        · rw [setCell_of_ne hkey] at hother
          obtain ⟨hknown, hid, hshape⟩ := h.known key other (.inr hother)
          exact ⟨List.mem_cons_of_mem _ hknown, hid.trans (Nat.lt_succ_self _), hshape⟩
      · intro key hholder
        change ((s.setCell row.key cell).cell key).holder = _ at hholder
        by_cases hkey : key = row.key
        · subst hkey
          have hold : (s.cell row.key).holder = none ∨ Held s t row.key :=
            (Cell.free_iff.mp hfree).imp_right (h.held_by ht)
          constructor
          · intro id hid
            change id ∈ statusIdsOf ((s.setCell row.key cell).cell row.key).current at hid
            change id ∈ statusIdsOf ((s.setCell row.key cell).cell row.key).committed ∨ _
            rw [hself] at hid ⊢
            rcases mem_upsert.mp hid with hid | hid
            · rcases hold with hnone | hheld
              · rw [h.settled _ hnone] at hid
                exact .inl hid
              · exact hheld.added id hid
            · exact .inr (hfinds id hid)
          · intro id hid
            change id ∈ statusIdsOf ((s.setCell row.key cell).cell row.key).committed at hid
            change id ∈ statusIdsOf ((s.setCell row.key cell).cell row.key).current ∨ _
            rw [hself] at hid ⊢
            rcases hold with hnone | hheld
            · rw [hcell, Cell.write_committed, ← h.settled _ hnone] at hid
              exact .inl (mem_upsert.mpr (.inl hid))
            · rcases hheld.kept id hid with hid | hid | hid
              · exact .inl (mem_upsert.mpr (.inl hid))
              · rw [Txn.deletes, hwork] at hid
                cases hid
              · rw [Txn.removes, hwork] at hid
                cases hid
          · intro id _ hdeleted
            cases hdeleted
        · rw [setCell_of_ne hkey] at hholder
          refine htouch.held_self (setCell_of_ne hkey) (fun _ hid => hid) ?_ ?_ ?_ (h.held_by ht hholder)
          · rw [Txn.deletes, Txn.deletes, hwork]
          · rw [Txn.removes, Txn.removes, hwork]
          · intro hlocked
            rw [Txn.locked, hwork] at hlocked
            cases hlocked
      · constructor
        · intro other hother
          exact hok.rows other (by rw [Txn.rows, hwork]; exact List.mem_cons_of_mem _ hother)
        · intro id hid
          obtain ⟨hsome, hlive⟩ := hok.delivers id hid
          exact ⟨hsome, fun status key hstatus hdeleted hkey => hcovers _ _ (hlive status key hstatus hdeleted hkey)⟩
        · exact hok.notification
        · intro hfalse
          cases hfalse
        · intro hfalse
          cases hfalse
        · cases next with
          | none => trivial
          | some fromAccountId =>
            have hknows := hok.knows
            rw [hwork] at hknows
            refine ⟨hknows.1, fun n hn => ?_⟩
            obtain ⟨hsome, hlive⟩ := hknows.2 n hn
            exact ⟨hsome, fun status key hstatus hdeleted hkey => hcovers _ _ (hlive status key hstatus hdeleted hkey)⟩
        · exact hok.own
    · cases hstep
  · cases hstep

theorem Inv.unfilter_rows (h : Inv s) (ht : t ∈ s.txns.rows) (hstep : s.unfilterRows t = some s') : Inv s' := by
  have hok := h.txns t ht
  unfold State.unfilterRows at hstep
  split at hstep
  · rename_i fromAccountId hwork
    obtain rfl := Option.some.inj hstep
    have hknows := hok.knows
    rw [hwork] at hknows
    have hrows : t.rows = [] := by rw [Txn.rows, hwork]
    set t' : Txn := { t with
      unfiltered := s.filteredFrom t.account fromAccountId
      delivers := (s.filteredFrom t.account fromAccountId).map Notification.statusId
      work := .upserting [] none } with ht'
    have htouch : Touch s (s.put t') t t' := touch_put ht ⟨rfl, rfl, rfl, rfl, rfl⟩
    refine h.put ht ⟨rfl, rfl, rfl, rfl, rfl⟩ ?_ ?_
    · intro key hholder
      refine htouch.held_self rfl (fun _ hid => hid) ?_ ?_ ?_ (h.held_by ht hholder)
      · rw [Txn.deletes, Txn.deletes, hwork]
      · rw [Txn.removes, Txn.removes, hwork]
      · intro hlocked
        rw [Txn.locked, hwork] at hlocked
        cases hlocked
    · constructor
      · intro row hrow
        cases hrow
      · intro id hid
        obtain ⟨n, hn, rfl⟩ := List.mem_map.mp hid
        obtain ⟨hsome, hlive⟩ := hknows.2 n hn
        refine ⟨hsome, fun status key hstatus hdeleted hkey => ?_⟩
        rcases hlive status key hstatus hdeleted hkey with ⟨row, hrow, -⟩ | hcovers
        · rw [hrows] at hrow
          cases hrow
        · exact .inr hcovers
      · exact hok.notification
      · intro hfalse
        cases hfalse
      · intro hfalse
        cases hfalse
      · trivial
      · exact hok.own
  · cases hstep

/-! ### Deletions -/

theorem Inv.scan (h : Inv s) (ht : t ∈ s.txns.rows) (hstep : s.scan t = some s') : Inv s' := by
  have hok := h.txns t ht
  unfold State.scan at hstep
  split at hstep
  · rename_i ids hwork
    obtain rfl := Option.some.inj hstep
    have hidle := hok.idle (by rw [hwork]; rfl)
    refine h.put ht ⟨rfl, rfl, rfl, rfl, rfl⟩ (fun key hholder => absurd hholder (hidle key)) ?_
    refine Touch.quiet (touch_put ht ⟨rfl, rfl, rfl, rfl, rfl⟩ : Touch s (s.put { t with
      work := .scanned ids s.commits (s.keysWith ids) [] }) t _) hok rfl (hok.silent (by rw [hwork]; rfl))
      (fun hfalse => by cases hfalse) ⟨le_refl _, ?_, List.nodup_nil, by simp, by simp⟩
    rintro key row hrow - ⟨id, hid, hdeleted⟩
    refine .inl (List.mem_filter.mpr ⟨(h.known key row (.inl hrow)).1, ?_⟩)
    change (s.cell key).committed = some row at hrow
    rw [hrow]
    exact List.any_eq_true.mpr ⟨id, hid, by simpa using hdeleted⟩
  · cases hstep

/-- A step on a row, in the words of the row. -/
theorem Inv.set_cell {cell : Cell (Option AccountConversation)} (h : Inv s) (ht : t ∈ s.txns.rows)
    (hsame : Same t t') (hfree : (s.cell key).free t.id = true)
    (hcommitted : cell.committed = (s.cell key).committed) (hversion : cell.version = (s.cell key).version)
    (hholder : cell.holder = some t.id) (hfollows : Follows s.nextRow (s.cell key).current cell.current)
    (hshape : ∀ row, cell.current = some row → key ∈ s.keys ∧ row.id < s.nextRow ∧ row.Shape)
    (hadded : ∀ id ∈ statusIdsOf cell.current, id ∈ statusIdsOf (s.cell key).committed ∨
      id ∈ t'.read ∧ s.Finds t key id)
    (hkept : ∀ id ∈ statusIdsOf (s.cell key).committed, id ∈ statusIdsOf cell.current ∨ id ∈ t'.deletes ∨
      t'.removes = some key)
    (hdropped : ∀ id ∈ statusIdsOf cell.current, id ∈ t'.deletes → key ∈ t'.locked.map Prod.fst)
    (hothers : ∀ other, other ≠ key → (s.cell other).holder = some t.id →
      (∀ id ∈ t.read, id ∈ t'.read) ∧ t'.deletes = t.deletes ∧ t'.removes = t.removes ∧
        (other ∈ t.locked.map Prod.fst → other ∈ t'.locked.map Prod.fst))
    (hok : TxnOk ((s.setCell key cell).put t') t') : Inv ((s.setCell key cell).put t') := by
  have htouch : Touch s ((s.setCell key cell).put t') t t' :=
    touch_cell cell ht hsame hfree hcommitted hversion hholder hfollows
  have hself : ((s.setCell key cell).put t').cell key = cell := setCell_self
  refine h.touch ht htouch ?_ ?_ hok
  · intro other row hrow
    by_cases hkey : other = key
    · subst hkey
      rw [hself] at hrow
      exact hshape row hrow
    · rw [show ((s.setCell key cell).put t').cell other = s.cell other from setCell_of_ne hkey] at hrow
      exact h.known other row (.inr hrow)
  · intro other hother
    by_cases hkey : other = key
    · subst hkey
      constructor
      · intro id hid
        rw [State.Finds, htouch.statusFor_self]
        rw [hself] at hid ⊢
        rw [hcommitted]
        exact hadded id hid
      · rw [hself, hcommitted]
        exact hkept
      · rw [hself]
        exact hdropped
    · have hcell : ((s.setCell key cell).put t').cell other = s.cell other := setCell_of_ne hkey
      rw [hcell] at hother
      obtain ⟨hread, hdeletes, hremoves, hlocked⟩ := hothers other hkey hother
      exact htouch.held_self hcell hread hdeletes hremoves hlocked (h.held_by ht hother)

/-- What is known of the current version of a row that a transaction may take. -/
theorem Inv.free_current (h : Inv s) (ht : t ∈ s.txns.rows) (hfree : (s.cell key).free t.id = true) :
    (s.cell key).current = (s.cell key).committed ∨ (s.cell key).holder = some t.id ∧ Held s t key := by
  rcases Cell.free_iff.mp hfree with hnone | hholder
  · exact .inl (h.settled key hnone)
  · exact .inr ⟨hholder, h.held_by ht hholder⟩

theorem Inv.lock_row (h : Inv s) (ht : t ∈ s.txns.rows) (hstep : s.lockRow t key = some s') : Inv s' := by
  have hok := h.txns t ht
  unfold State.lockRow at hstep
  split at hstep
  · rename_i ids after toLock locked hwork
    have hknows := hok.knows
    rw [hwork] at hknows
    obtain ⟨hafter, hfound, hnodup, hdisjoint, hlocked⟩ := hknows
    have hdelivers : t.delivers = [] := hok.silent (by rw [hwork]; rfl)
    have hdeletes : t.deletes = ids := by rw [Txn.deletes, hwork]
    have hremoves : t.removes = none := by rw [Txn.removes, hwork]
    have hkeys : t.locked = locked := by rw [Txn.locked, hwork]
    have hrest : ∀ other, other ≠ key → other ∈ toLock → other ∈ toLock.filter (· ≠ key) := by
      intro other hne hmem
      exact List.mem_filter.mpr ⟨hmem, by simpa using hne⟩
    split at hstep
    · rename_i hboth
      obtain ⟨hkey, hfree⟩ := hboth
      have hcurrent := h.free_current ht hfree
      dsimp only at hstep
      split at hstep
      · obtain rfl := Option.some.inj hstep
        have hcell : ∀ other, other ≠ key → (s.setCell key ((s.cell key).lock t.id)).cell other = s.cell other :=
          fun _ => setCell_of_ne
        have hself : (s.setCell key ((s.cell key).lock t.id)).cell key = (s.cell key).lock t.id := setCell_self
        have hsame : Same t { t with
            work := .scanned ids after (toLock.filter (· ≠ key))
              (locked ++ [(key, statusIdsOf (s.cell key).current)]) } := ⟨rfl, rfl, rfl, rfl, rfl⟩
        refine h.set_cell ht hsame hfree rfl rfl rfl follows_refl
          (fun row hrow => h.known key row (.inr hrow)) ?_ ?_ ?_ ?_ ?_
        · intro id hid
          rcases hcurrent with hsame | ⟨-, hheld⟩
          · exact .inl (hsame ▸ hid)
          · exact hheld.added id hid
        · intro id hid
          rcases hcurrent with hsame | ⟨-, hheld⟩
          · exact .inl (by rw [Cell.lock_current, hsame]; exact hid)
          · rcases hheld.kept id hid with hid | hid | hid
            · exact .inl hid
            · exact .inr (.inl (hdeletes ▸ hid))
            · rw [hremoves] at hid
              cases hid
        · intro id _ _
          change key ∈ (locked ++ [(key, _)]).map Prod.fst
          simp
        · intro other _ _
          refine ⟨fun _ hid => hid, hdeletes.symm, hremoves.symm, fun hmem => ?_⟩
          change other ∈ (locked ++ [(key, _)]).map Prod.fst
          rw [hkeys] at hmem
          rw [List.map_append]
          exact List.mem_append_left _ hmem
        · have htouch := touch_cell ((s.cell key).lock t.id) ht hsame hfree rfl rfl rfl follows_refl
          refine htouch.quiet hok rfl hdelivers (fun hfalse => by cases hfalse) ⟨hafter, ?_, ?_, ?_, ?_⟩
          · intro other row hrow hversion hids
            change ((s.setCell key ((s.cell key).lock t.id)).cell other).committed = _ at hrow
            change ((s.setCell key ((s.cell key).lock t.id)).cell other).version ≤ _ at hversion
            change _ ∨ ((s.setCell key ((s.cell key).lock t.id)).cell other).holder = _
            by_cases hne : other = key
            · subst hne
              exact .inr (by rw [hself]; rfl)
            · rw [hcell other hne] at hrow hversion ⊢
              exact (hfound other row hrow hversion hids).imp_left (hrest other hne)
          · rw [List.map_append, List.map_singleton]
            refine List.nodup_append.mpr ⟨hnodup, List.nodup_singleton _, fun other hother _ hnew heq => ?_⟩
            have heq : other = key := heq.trans (List.mem_singleton.mp hnew)
            exact hdisjoint key hkey (heq ▸ hother)
          · intro other hother
            obtain ⟨hmem, hne⟩ := List.mem_filter.mp hother
            have hne : other ≠ key := by simpa using hne
            rw [List.map_append, List.mem_append, List.map_singleton, List.mem_singleton]
            rintro (hold | rfl)
            · exact hdisjoint other hmem hold
            · exact hne rfl
          · intro found hmem
            change ((s.setCell key ((s.cell key).lock t.id)).cell found.1).holder = _ ∧
              statusIdsOf ((s.setCell key ((s.cell key).lock t.id)).cell found.1).current = _
            rcases List.mem_append.mp hmem with hmem | hmem
            · rw [hcell found.1 fun heq => hdisjoint key hkey (heq ▸ List.mem_map_of_mem hmem)]
              exact hlocked found hmem
            · obtain rfl := List.mem_singleton.mp hmem
              rw [hself]
              exact ⟨rfl, rfl⟩
      · rename_i hnone
        obtain rfl := Option.some.inj hstep
        have htouch : Touch s (s.put { t with work := .scanned ids after (toLock.filter (· ≠ key)) locked }) t
          { t with work := .scanned ids after (toLock.filter (· ≠ key)) locked } :=
          touch_put ht ⟨rfl, rfl, rfl, rfl, rfl⟩
        refine h.put ht ⟨rfl, rfl, rfl, rfl, rfl⟩ ?_ ?_
        · intro other hholder
          refine htouch.held_self rfl (fun _ hid => hid) hdeletes.symm hremoves.symm ?_ (h.held_by ht hholder)
          exact fun hmem => hkeys ▸ hmem
        · refine htouch.quiet hok rfl hdelivers (fun hfalse => by cases hfalse) ⟨hafter, ?_, hnodup, ?_, hlocked⟩
          · intro other row hrow hversion hids
            by_cases hne : other = key
            · subst hne
              rcases hcurrent with hsame | ⟨hholder, -⟩
              · obtain ⟨id, hid, hdeleted⟩ := hids
                refine absurd (List.any_eq_true.mpr ⟨id, ?_, by simpa using hdeleted⟩) hnone
                change (s.cell other).committed = some row at hrow
                rw [hsame, hrow]
                exact hid
              · exact .inr hholder
            · exact (hfound other row hrow hversion hids).imp_left (hrest other hne)
          · exact fun other hother => hdisjoint other (List.mem_of_mem_filter hother)
    · cases hstep
  · cases hstep

theorem follows_withoutStatuses {read deleted : List ℤ} {next : ℕ} {old : Option AccountConversation} :
    Follows next old (old.bind (withoutStatuses read deleted)) := by
  intro row' hrow'
  obtain ⟨row, hrow, hnew⟩ := Option.bind_eq_some_iff.mp hrow'
  rw [withoutStatuses] at hnew
  split at hnew
  · cases hnew
  · obtain rfl := Option.some.inj hnew
    refine .inr ⟨row, hrow, rfl, Nat.le_succ _, fun hsame => ?_⟩
    change row.lockVersion = row.lockVersion + 1 at hsame
    omega

theorem Inv.rewrite_row (h : Inv s) (ht : t ∈ s.txns.rows) (hstep : s.rewriteRow t = some s') : Inv s' := by
  have hok := h.txns t ht
  unfold State.rewriteRow at hstep
  split at hstep
  · rename_i ids after key read locked hwork
    obtain rfl := Option.some.inj hstep
    have hknows := hok.knows
    rw [hwork] at hknows
    obtain ⟨hafter, hfound, hnodup, -, hlocked⟩ := hknows
    have hdelivers : t.delivers = [] := hok.silent (by rw [hwork]; rfl)
    have hdeletes : t.deletes = ids := by rw [Txn.deletes, hwork]
    have hremoves : t.removes = none := by rw [Txn.removes, hwork]
    have hkeys : t.locked = (key, read) :: locked := by rw [Txn.locked, hwork]
    obtain ⟨hholder, hread⟩ := hlocked (key, read) (List.mem_cons_self ..)
    obtain ⟨hnew, hnodup⟩ := List.nodup_cons.mp hnodup
    have hheld := h.held_by ht hholder
    have hfree : (s.cell key).free t.id = true := Cell.free_iff.mpr (.inr hholder)
    have hmem : ∀ id, id ∈ statusIdsOf ((s.cell key).current.bind (withoutStatuses read ids)) ↔
        id ∈ read ∧ id ∉ ids := by
      intro id
      cases hcurrent : (s.cell key).current with
      | none =>
        rw [hcurrent] at hread
        subst hread
        simp
      | some row => exact mem_withoutStatuses
    have hcell : ∀ other, other ≠ key → (s.setCell key ((s.cell key).write t.id
        ((s.cell key).current.bind (withoutStatuses read ids)))).cell other = s.cell other :=
      fun _ => setCell_of_ne
    have hself : (s.setCell key ((s.cell key).write t.id
        ((s.cell key).current.bind (withoutStatuses read ids)))).cell key = _ := setCell_self
    have hsame : Same t { t with work := .scanned ids after [] locked } := ⟨rfl, rfl, rfl, rfl, rfl⟩
    have hfollows : Follows s.nextRow (s.cell key).current
        ((s.cell key).current.bind (withoutStatuses read ids)) := follows_withoutStatuses
    refine h.set_cell ht hsame hfree rfl rfl rfl hfollows ?_ ?_ ?_ ?_ ?_ ?_
    · intro row' hrow'
      obtain ⟨row, hrow, hwithout⟩ := Option.bind_eq_some_iff.mp hrow'
      obtain ⟨hknown, hid, hshape⟩ := h.known key row (.inr hrow)
      rw [hrow, statusIdsOf_some] at hread
      obtain rfl : row.statusIds = read := hread
      refine ⟨hknown, ?_, shape_withoutStatuses hshape.increasing hwithout⟩
      rw [withoutStatuses] at hwithout
      split at hwithout
      · cases hwithout
      · obtain rfl := Option.some.inj hwithout
        exact hid
    · intro id hid
      refine hheld.added id ?_
      rw [hread]
      exact ((hmem id).mp hid).1
    · intro id hid
      rcases hheld.kept id hid with hid | hid | hid
      · rw [hread] at hid
        by_cases hdeleted : id ∈ ids
        · exact .inr (.inl hdeleted)
        · exact .inl ((hmem id).mpr ⟨hid, hdeleted⟩)
      · exact .inr (.inl (hdeletes ▸ hid))
      · rw [hremoves] at hid
        cases hid
    · intro id hid hdeleted
      exact absurd hdeleted ((hmem id).mp hid).2
    · intro other hother _
      refine ⟨fun _ hid => hid, hdeletes.symm, hremoves.symm, fun hold => ?_⟩
      rw [hkeys] at hold
      exact (List.mem_cons.mp hold).resolve_left hother
    · have htouch := touch_write ht hsame hfree hfollows
      refine htouch.quiet hok rfl hdelivers (fun hfalse => by cases hfalse)
        ⟨hafter, ?_, hnodup, by simp, ?_⟩
      · intro other row hrow hversion hids
        change ((s.setCell key _).cell other).committed = _ at hrow
        change ((s.setCell key _).cell other).version ≤ _ at hversion
        change _ ∨ ((s.setCell key _).cell other).holder = _
        by_cases hne : other = key
        · subst hne
          exact .inr (by rw [hself]; rfl)
        · rw [hcell other hne] at hrow hversion ⊢
          exact hfound other row hrow hversion hids
      · intro found hfound
        change ((s.setCell key _).cell found.1).holder = _ ∧
          statusIdsOf ((s.setCell key _).cell found.1).current = _
        have hne : found.1 ≠ key := fun heq => hnew (List.mem_map.mpr ⟨found, hfound, heq⟩)
        rw [hcell found.1 hne]
        exact hlocked found (List.mem_cons_of_mem _ hfound)
  · cases hstep

/-! ### Read, unread and removal -/

theorem Inv.check_last (h : Inv s) (ht : t ∈ s.txns.rows) (hstep : s.checkLast t = some s') : Inv s' := by
  have hok := h.txns t ht
  unfold State.checkLast at hstep
  split at hstep
  · rename_i key rowId statusIds expected given hwork
    split at hstep
    · rename_i last hlast
      split at hstep
      · obtain rfl := Option.some.inj hstep
        have hidle := hok.idle (by rw [hwork]; rfl)
        have hknows := hok.knows
        rw [hwork] at hknows
        have hsame : Same t { t with work := .checked key rowId statusIds expected given last } :=
          ⟨rfl, rfl, rfl, rfl, rfl⟩
        refine h.put ht hsame (fun key hholder => absurd hholder (hidle key)) ?_
        exact (touch_put ht hsame).quiet hok rfl (hok.silent (by rw [hwork]; rfl)) (fun _ => hidle)
          ⟨hlast, hknows⟩
      · cases hstep
    · cases hstep
  · cases hstep

theorem Inv.update_unread {unread : Bool} (h : Inv s) (ht : t ∈ s.txns.rows)
    (hmeets : s.Meets (.updateUnread t.id unread)) (hstep : s.updateUnread t unread = some s') : Inv s' := by
  have hok := h.txns t ht
  unfold State.updateUnread at hstep
  split at hstep
  · rename_i key rowId statusIds expected given last hwork
    split at hstep
    · rename_i row hrow
      split at hstep
      · rename_i hmatch
        obtain ⟨hfree, hid, hversion⟩ := hmatch
        obtain rfl := Option.some.inj hstep
        have hidle := hok.idle (by rw [hwork]; rfl)
        have hknows := hok.knows
        rw [hwork] at hknows
        obtain ⟨hlast, htracks⟩ := hknows
        have hstatusIds : row.statusIds = statusIds := by
          cases given with
          | false => exact ((htracks rfl).2 row (.inr hrow)).same hid hversion
          | true =>
            exact hmeets t (Table.mem_iff_get.mp ht) key rowId statusIds expected last hwork row hrow hid hversion
        obtain ⟨hknown, hlt, hshape⟩ := h.known key row (.inr hrow)
        have hcurrent : (s.cell key).current = (s.cell key).committed :=
          (h.free_current ht hfree).resolve_right fun hheld => hidle key hheld.1
        have hsame : Same t { t with work := .done } := ⟨rfl, rfl, rfl, rfl, rfl⟩
        have hfollows : Follows s.nextRow (s.cell key).current (some { row with
            unread, lastStatusId := some last, lockVersion := row.lockVersion + 1 }) := by
          rintro _ ⟨⟩
          exact .inr ⟨row, hrow, rfl, Nat.le_succ _, fun hsame => by
            change row.lockVersion = row.lockVersion + 1 at hsame
            omega⟩
        refine h.set_cell ht hsame hfree rfl rfl rfl hfollows ?_ ?_ ?_ ?_ ?_ ?_
        · rintro _ ⟨⟩
          refine ⟨hknown, hlt, hshape.nonempty, hshape.increasing, ?_⟩
          change some last = row.statusIds.getLast?
          rw [← hlast, ← hstatusIds]
          exact Schemes.Sorted.max?_eq_getLast? hshape.increasing fun _ => Iff.rfl
        · intro id hmem
          refine .inl ?_
          rw [← hcurrent, hrow]
          exact hmem
        · intro id hmem
          refine .inl ?_
          rw [← hcurrent, hrow] at hmem
          exact hmem
        · intro id _ hdeleted
          cases hdeleted
        · intro other _ hholder
          exact absurd hholder (hidle other)
        · exact (touch_write ht hsame hfree hfollows).quiet hok rfl
            (hok.silent (by rw [hwork]; rfl)) (fun hfalse => by cases hfalse) trivial
      · cases hstep
    · cases hstep
  · cases hstep

theorem Inv.remove_row (h : Inv s) (ht : t ∈ s.txns.rows) (hstep : s.removeRow t = some s') : Inv s' := by
  have hok := h.txns t ht
  unfold State.removeRow at hstep
  split at hstep
  · rename_i key rowId expected hwork
    split at hstep
    · rename_i row hrow
      split at hstep
      · rename_i hmatch
        obtain rfl := Option.some.inj hstep
        have hidle := hok.idle (by rw [hwork]; rfl)
        have hsame : Same t { t with work := .removed key } := ⟨rfl, rfl, rfl, rfl, rfl⟩
        have hfollows : Follows s.nextRow (s.cell key).current none := by
          rintro _ ⟨⟩
        refine h.set_cell ht hsame hmatch.1 rfl rfl rfl hfollows ?_ ?_ ?_ ?_ ?_ ?_
        · rintro _ ⟨⟩
        · intro id hmem
          cases hmem
        · intro id _
          exact .inr (.inr rfl)
        · intro id hmem
          cases hmem
        · intro other _ hholder
          exact absurd hholder (hidle other)
        · exact (touch_write ht hsame hmatch.1 hfollows).quiet hok rfl
            (hok.silent (by rw [hwork]; rfl)) (fun hfalse => by cases hfalse) trivial
      · cases hstep
    · cases hstep
  · cases hstep

/-! ### Beginnings -/

/-- A transaction that begins. -/
theorem Inv.begin (h : Inv s) (hid : t.id = s.nextTxn) (hrows : t.rows = []) (hdelivers : t.delivers = [])
    (hnotification : ∀ n, t.notification = some n →
      t.advisory = true ∧ n.accountId = t.account ∧ (s.status n.statusId).isSome = true)
    (hknows : s.Knows t t.work) (hown : ∀ status, t.status = some status → s.status status.id = none ∧ status.deleted = false)
    (hadvisory : t.advisory = true → s.unlocked t.account = true)
    (hdistinct : ∀ u ∈ s.txns.rows, ∀ status other, t.status = some status → u.status = some other →
      status.id ≠ other.id)
    (hstep : s.begin t = some s') : Inv s' := by
  obtain ⟨txns, hinsert, rfl⟩ := Option.map_eq_some_iff.mp hstep
  have hself : ({ t with id := s.nextTxn } : Txn) = t := by rw [← hid]
  rw [hself] at hinsert
  have hmem : ∀ u, u ∈ txns.rows ↔ u ∈ s.txns.rows ∨ u = t := by
    intro u
    rw [(Table.get_of_insert hinsert).2, List.mem_append, List.mem_singleton]
  have hfresh : ∀ key, (s.cell key).holder ≠ some t.id := by
    intro key hholder
    obtain ⟨u, hu, hsame, -⟩ := h.held key t.id hholder
    have hlt := h.ids u hu
    omega
  have hlocked : ∀ u ∈ s.txns.rows, t.advisory = true → u.advisory = true → t.account ≠ u.account := by
    intro u hu htadvisory huadvisory haccount
    have hall := List.all_eq_true.mp (hadvisory htadvisory) u hu
    simp [huadvisory, haccount] at hall
  constructor
  · exact h.settled
  · exact h.known
  · exact h.follows
  · exact h.live
  · intro key i hholder
    obtain ⟨u, hu, rfl, hheld⟩ := h.held key i hholder
    exact ⟨u, (hmem u).mpr (.inl hu), rfl, hheld.added, hheld.kept, hheld.dropped⟩
  · intro u hu
    rcases (hmem u).mp hu with hu | rfl
    · have hok := h.txns u hu
      exact ⟨hok.rows, hok.delivers, hok.notification, hok.idle, hok.silent, hok.knows, hok.own⟩
    · refine ⟨fun row hrow => ?_, fun id hid => ?_, hnotification, fun _ => hfresh, fun _ => hdelivers, hknows,
        hown⟩
      · rw [hrows] at hrow
        cases hrow
      · rw [hdelivers] at hid
        cases hid
  · intro u hu
    rcases (hmem u).mp hu with hu | rfl
    · exact Nat.lt_succ_of_lt (h.ids u hu)
    · exact hid ▸ Nat.lt_succ_self _
  · intro u hu v hv huadvisory hvadvisory haccount
    rcases (hmem u).mp hu with hu | rfl <;> rcases (hmem v).mp hv with hv | rfl
    · exact h.advisory u hu v hv huadvisory hvadvisory haccount
    · exact absurd haccount.symm (hlocked u hu hvadvisory huadvisory)
    · exact absurd haccount (hlocked v hv huadvisory hvadvisory)
    · rfl
  · intro u hu v hv status other hstatus hother heq
    rcases (hmem u).mp hu with hu | rfl <;> rcases (hmem v).mp hv with hv | rfl
    · exact h.own u hu v hv status other hstatus hother heq
    · exact absurd heq.symm (hdistinct u hu other status hother hstatus)
    · exact absurd heq (hdistinct v hv status other hstatus hother)
    · rfl
  · exact h.statuses
  · exact h.versions
  · exact h.notifications
  · exact h.delivered

end Rustodon.Conversations
