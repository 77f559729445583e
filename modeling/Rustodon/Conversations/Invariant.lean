import Rustodon.Conversations.Machine

/-! @src mastodon/write_repository.rs, worker.rs | name:What holds of transactions on conversations |
    scheme:tables,versions | family:conversations

    The invariant: what a row that is held has gained and lost, and what each transaction has still to
    do for the statuses that it delivers or deletes. -/

namespace Rustodon.Conversations
open Schemes.Tables (Table)
open Schemes.Versions (Cell)

/-- The rows that a transaction has still to upsert. -/
def Txn.rows (t : Txn) : List Direct :=
  match t.work with
  | .upserting rows _ => rows
  | _ => []

/-- The rows that it has locked and not yet rewritten. -/
def Txn.locked (t : Txn) : List (ConversationKey × List ℤ) :=
  match t.work with
  | .scanned _ _ _ locked => locked
  | _ => []

/-- It has not yet come to its rows. -/
def Work.idle : Work → Bool
  | .composed | .notified _ | .unfiltering _ | .marked _ | .read .. | .checked .. | .removing .. => true
  | _ => false

/-- It delivers nothing. -/
def Work.silent : Work → Bool
  | .upserting .. | .done => false
  | _ => true

/-- A status that a transaction finds is of a conversation. -/
def State.Finds (s : State) (t : Txn) (key : ConversationKey) (id : ℤ) : Prop :=
  ∃ status, s.statusFor t id = some status ∧ status.key key.accountId = some key

/-- A status is in the current version of a row that a transaction holds, or will be. -/
def State.Covers (s : State) (t : Txn) (key : ConversationKey) (id : ℤ) : Prop :=
  (∃ row ∈ t.rows, row.key = key ∧ id ∈ row.statusIds) ∨
    (s.cell key).holder = some t.id ∧ id ∈ statusIdsOf (s.cell key).current

/-- If a status is live, the transaction covers its conversation. -/
def State.CoversLive (s : State) (t : Txn) (id : ℤ) : Prop :=
  (s.statusFor t id).isSome = true ∧ ∀ status key, s.statusFor t id = some status →
    status.deleted = false → status.key t.account = some key → s.Covers t key id

/-- As long as the row with an id has a lock version, it has the same statuses. -/
structure Tracks (rowId : ℕ) (statusIds : List ℤ) (expected : ℕ) (row : AccountConversation) : Prop where
  newer : row.id = rowId → expected ≤ row.lockVersion
  same : row.id = rowId → row.lockVersion = expected → row.statusIds = statusIds

/-- What is known of a transaction from what it has to do next. -/
def State.Knows (s : State) (t : Txn) : Work → Prop
  | .notified statusId => ∀ n, t.notification = some n → n.statusId = statusId
  | .unfiltering _ => t.advisory = true
  | .upserting _ (some fromAccountId) =>
    t.advisory = true ∧ ∀ n ∈ s.filteredFrom t.account fromAccountId, s.CoversLive t n.statusId
  | .scanned ids after toLock locked =>
    after ≤ s.commits ∧
    (∀ key row, (s.cell key).committed = some row → (s.cell key).version ≤ after →
      (∃ id ∈ row.statusIds, id ∈ ids) → key ∈ toLock ∨ (s.cell key).holder = some t.id) ∧
    (locked.map Prod.fst).Nodup ∧ (∀ key ∈ toLock, key ∉ locked.map Prod.fst) ∧
    ∀ found ∈ locked, (s.cell found.1).holder = some t.id ∧ statusIdsOf (s.cell found.1).current = found.2
  | .read key rowId statusIds expected given => given = false → rowId < s.nextRow ∧
    ∀ row, (s.cell key).committed = some row ∨ (s.cell key).current = some row →
      Tracks rowId statusIds expected row
  | .checked key rowId statusIds expected given last => statusIds.max? = some last ∧
    (given = false → rowId < s.nextRow ∧
      ∀ row, (s.cell key).committed = some row ∨ (s.cell key).current = some row →
        Tracks rowId statusIds expected row)
  | _ => True

structure TxnOk (s : State) (t : Txn) : Prop where
  rows : ∀ row ∈ t.rows, row.Shape ∧ ∀ id ∈ row.statusIds, id ∈ t.read ∧ s.Finds t row.key id
  delivers : ∀ id ∈ t.delivers, s.CoversLive t id
  notification : ∀ n, t.notification = some n →
    t.advisory = true ∧ n.accountId = t.account ∧ (s.status n.statusId).isSome = true
  idle : t.work.idle = true → ∀ key, (s.cell key).holder ≠ some t.id
  silent : t.work.silent = true → t.delivers = []
  knows : s.Knows t t.work
  own : ∀ status, t.status = some status → s.status status.id = none ∧ status.deleted = false

/-- What a transaction has done to a row that it holds. -/
structure Held (s : State) (t : Txn) (key : ConversationKey) : Prop where
  added : ∀ id ∈ statusIdsOf (s.cell key).current, id ∈ statusIdsOf (s.cell key).committed ∨
    id ∈ t.read ∧ s.Finds t key id
  kept : ∀ id ∈ statusIdsOf (s.cell key).committed, id ∈ statusIdsOf (s.cell key).current ∨
    id ∈ t.deletes ∨ t.removes = some key
  dropped : ∀ id ∈ statusIdsOf (s.cell key).current, id ∈ t.deletes → key ∈ t.locked.map Prod.fst

/-- A live status that is of the conversation of a row. -/
def State.Live (s : State) (key : ConversationKey) (id : ℤ) : Prop :=
  ∃ status, s.status id = some status ∧ status.deleted = false ∧ status.key key.accountId = some key

structure Inv (s : State) : Prop where
  settled : ∀ key, (s.cell key).Settled
  known : ∀ key row, (s.cell key).committed = some row ∨ (s.cell key).current = some row →
    key ∈ s.keys ∧ row.id < s.nextRow ∧ row.Shape
  follows : ∀ key row, (s.cell key).committed = some row → ∀ row', (s.cell key).current = some row' →
    Tracks row.id row.statusIds row.lockVersion row'
  live : ∀ key, ∀ id ∈ statusIdsOf (s.cell key).committed, s.Live key id
  held : ∀ key i, (s.cell key).holder = some i → ∃ t ∈ s.txns.rows, t.id = i ∧ Held s t key
  txns : ∀ t ∈ s.txns.rows, TxnOk s t
  ids : ∀ t ∈ s.txns.rows, t.id < s.nextTxn
  advisory : ∀ t ∈ s.txns.rows, ∀ u ∈ s.txns.rows, t.advisory = true → u.advisory = true →
    t.account = u.account → t.id = u.id
  own : ∀ t ∈ s.txns.rows, ∀ u ∈ s.txns.rows, ∀ status other, t.status = some status →
    u.status = some other → status.id = other.id → t.id = u.id
  statuses : ∀ id status, s.status id = some status → status.id = id
  versions : ∀ key, (s.cell key).version ≤ s.commits
  notifications : ∀ n ∈ s.notifications, (s.status n.statusId).isSome = true
  delivered : ∀ delivery ∈ s.delivered, (s.status delivery.2).isSome = true ∧ ∀ status key,
    s.status delivery.2 = some status → status.deleted = false → status.key delivery.1 = some key →
      delivery.2 ∈ statusIdsOf (s.cell key).committed

variable {s s' : State} {t t' u : Txn} {key : ConversationKey}

theorem inv_empty : Inv State.empty where
  settled _ _ := rfl
  known := by
    rintro key row (h | h) <;> cases h
  follows key row h := by cases h
  live key id h := by cases h
  held key i h := by cases h
  txns t h := by cases h
  ids t h := by cases h
  advisory t h := by cases h
  own t h := by cases h
  statuses id status h := by cases h
  versions _ := le_refl _
  notifications n h := by cases h
  delivered delivery h := by cases h

theorem eq_of_id (ht : t ∈ s.txns.rows) (hu : u ∈ s.txns.rows) (h : t.id = u.id) : t = u :=
  List.inj_on_of_nodup_map s.txns.keys_nodup ht hu h

/-- What a transaction holds. -/
theorem Inv.held_by (h : Inv s) (ht : t ∈ s.txns.rows) (hholder : (s.cell key).holder = some t.id) :
    Held s t key := by
  obtain ⟨u, hu, hid, hheld⟩ := h.held key t.id hholder
  obtain rfl := eq_of_id hu ht hid
  exact hheld

/-! ### Steps within a transaction -/

/-- The row that a step leaves is new, or has a new lock version where its statuses are not the same. -/
def Follows (next : ℕ) (old new : Option AccountConversation) : Prop :=
  ∀ row', new = some row' → row'.id = next ∨ ∃ row, old = some row ∧ row.id = row'.id ∧
    row.lockVersion ≤ row'.lockVersion ∧ (row.lockVersion = row'.lockVersion → row.statusIds = row'.statusIds)

theorem follows_refl {next : ℕ} {row : Option AccountConversation} : Follows next row row :=
  fun row' h => .inr ⟨row', h, rfl, le_refl _, fun _ => rfl⟩

theorem Tracks.follows {rowId next : ℕ} {statusIds : List ℤ} {expected : ℕ}
    {old new : Option AccountConversation} (hlt : rowId < next) (hfollows : Follows next old new)
    (h : ∀ row, old = some row → Tracks rowId statusIds expected row) :
    ∀ row, new = some row → Tracks rowId statusIds expected row := by
  intro row' hrow'
  rcases hfollows row' hrow' with hnext | ⟨row, hrow, hid, hle, hsame⟩
  · constructor <;> intro hid <;> omega
  · have htracks := h row hrow
    constructor
    · intro hid'
      exact (htracks.newer (hid.trans hid')).trans hle
    · intro hid' hversion
      have hnewer := htracks.newer (hid.trans hid')
      have hold : row.lockVersion = expected := by omega
      rw [← hsame (hold.trans hversion.symm)]
      exact htracks.same (hid.trans hid') hold

/-- A step within a transaction, which may take rows that are free. -/
structure Touch (s s' : State) (t t' : Txn) : Prop where
  status : s'.status = s.status
  notifications : s'.notifications = s.notifications
  delivered : s'.delivered = s.delivered
  commits : s'.commits = s.commits
  nextTxn : s'.nextTxn = s.nextTxn
  nextRow : s.nextRow ≤ s'.nextRow
  keys : ∀ key ∈ s.keys, key ∈ s'.keys
  txns : ∀ u ∈ s'.txns.rows, u = t' ∨ u ∈ s.txns.rows ∧ u.id ≠ t.id
  others : ∀ u ∈ s.txns.rows, u.id ≠ t.id → u ∈ s'.txns.rows
  self : t' ∈ s'.txns.rows
  id : t'.id = t.id
  account : t'.account = t.account
  advisory : t'.advisory = t.advisory
  own : t'.status = t.status
  notification : t'.notification = t.notification
  committed : ∀ key, (s'.cell key).committed = (s.cell key).committed
  version : ∀ key, (s'.cell key).version = (s.cell key).version
  cells : ∀ key, s'.cell key = s.cell key ∨
    (s.cell key).free t.id = true ∧ (s'.cell key).holder = some t.id
  follows : ∀ key, Follows s.nextRow (s.cell key).current (s'.cell key).current

theorem Touch.statusFor (h : Touch s s' t t') (u : Txn) (id : ℤ) : s'.statusFor u id = s.statusFor u id := by
  rw [State.statusFor, h.status, State.statusFor]

theorem Touch.statusFor_self (h : Touch s s' t t') (id : ℤ) : s'.statusFor t' id = s.statusFor t id := by
  rw [State.statusFor, h.status, h.own, State.statusFor]

/-- What another transaction holds is not touched. -/
theorem Touch.cell_of_holder (h : Touch s s' t t') (hid : u.id ≠ t.id)
    (hholder : (s.cell key).holder = some u.id) : s'.cell key = s.cell key := by
  rcases h.cells key with hsame | ⟨hfree, -⟩
  · exact hsame
  · rcases Schemes.Versions.Cell.free_iff.mp hfree with hnone | hself
    · rw [hnone] at hholder
      cases hholder
    · rw [hself] at hholder
      exact absurd (Option.some.inj hholder).symm hid

theorem Touch.cell_of_holder' (h : Touch s s' t t') (hid : u.id ≠ t.id)
    (hholder : (s'.cell key).holder = some u.id) : s'.cell key = s.cell key := by
  rcases h.cells key with hsame | ⟨-, hself⟩
  · exact hsame
  · rw [hself] at hholder
    exact absurd (Option.some.inj hholder).symm hid

theorem Touch.covers (h : Touch s s' t t') (hid : u.id ≠ t.id) {id : ℤ} (hcovers : s.Covers u key id) :
    s'.Covers u key id := by
  rcases hcovers with hrow | ⟨hholder, hmem⟩
  · exact .inl hrow
  · refine .inr ?_
    rw [h.cell_of_holder hid hholder]
    exact ⟨hholder, hmem⟩

theorem Touch.coversLive (h : Touch s s' t t') (hid : u.id ≠ t.id) {id : ℤ} (hcovers : s.CoversLive u id) :
    s'.CoversLive u id := by
  rw [State.CoversLive, h.statusFor]
  exact ⟨hcovers.1, fun status key hstatus hlive hkey => h.covers hid (hcovers.2 status key hstatus hlive hkey)⟩

theorem Touch.tracks (h : Touch s s' t t') {rowId expected : ℕ} {statusIds : List ℤ}
    (htracks : rowId < s.nextRow ∧ ∀ row, (s.cell key).committed = some row ∨ (s.cell key).current = some row →
      Tracks rowId statusIds expected row) :
    rowId < s'.nextRow ∧ ∀ row, (s'.cell key).committed = some row ∨ (s'.cell key).current = some row →
      Tracks rowId statusIds expected row := by
  refine ⟨htracks.1.trans_le h.nextRow, fun row hrow => ?_⟩
  rcases hrow with hrow | hrow
  · rw [h.committed] at hrow
    exact htracks.2 row (.inl hrow)
  · exact Tracks.follows htracks.1 (h.follows key) (fun row hrow => htracks.2 row (.inr hrow)) row hrow

theorem Touch.filteredFrom (h : Touch s s' t t') (account fromAccountId : ℤ) :
    s'.filteredFrom account fromAccountId = s.filteredFrom account fromAccountId := by
  rw [State.filteredFrom, h.notifications, State.filteredFrom]

theorem Touch.knows (h : Touch s s' t t') (hid : u.id ≠ t.id) {work : Work} (hknows : s.Knows u work) :
    s'.Knows u work := by
  cases work with
  | upserting rows next =>
    cases next with
    | none => trivial
    | some fromAccountId =>
      refine ⟨hknows.1, fun n hn => ?_⟩
      rw [h.filteredFrom] at hn
      exact h.coversLive hid (hknows.2 n hn)
  | scanned ids after toLock locked =>
    obtain ⟨hafter, hfound, hnodup, hdisjoint, hlocked⟩ := hknows
    refine ⟨h.commits ▸ hafter, ?_, hnodup, hdisjoint, ?_⟩
    · intro key row hrow hversion hids
      rw [h.committed] at hrow
      rw [h.version] at hversion
      rcases hfound key row hrow hversion hids with hlock | hholder
      · exact .inl hlock
      · exact .inr (h.cell_of_holder hid hholder ▸ hholder)
    · intro found hfound
      obtain ⟨hholder, hids⟩ := hlocked found hfound
      rw [h.cell_of_holder hid hholder]
      exact ⟨hholder, hids⟩
  | read key rowId statusIds expected given => exact fun hgiven => h.tracks (hknows hgiven)
  | checked key rowId statusIds expected given last =>
    exact ⟨hknows.1, fun hgiven => h.tracks (hknows.2 hgiven)⟩
  | notified statusId => exact hknows
  | unfiltering fromAccountId => exact hknows
  | _ => trivial

theorem Touch.txnOk (h : Touch s s' t t') (hid : u.id ≠ t.id) (hok : TxnOk s u) : TxnOk s' u where
  rows row hrow := by
    obtain ⟨hshape, hfinds⟩ := hok.rows row hrow
    refine ⟨hshape, fun id hmem => ⟨(hfinds id hmem).1, ?_⟩⟩
    rw [State.Finds, h.statusFor]
    exact (hfinds id hmem).2
  delivers id hmem := h.coversLive hid (hok.delivers id hmem)
  notification := by
    rw [h.status]
    exact hok.notification
  idle hidle key hholder := by
    rw [h.cell_of_holder' hid hholder] at hholder
    exact hok.idle hidle key hholder
  silent := hok.silent
  knows := h.knows hid hok.knows
  own := by
    rw [h.status]
    exact hok.own

/-- A transaction that neither upserts nor delivers. -/
theorem Touch.quiet (h : Touch s s' t t') (hok : TxnOk s t) (hrows : t'.rows = []) (hdelivers : t'.delivers = [])
    (hidle : t'.work.idle = true → ∀ key, (s'.cell key).holder ≠ some t.id) (hknows : s'.Knows t' t'.work) :
    TxnOk s' t' where
  rows row hrow := by
    rw [hrows] at hrow
    cases hrow
  delivers id hid := by
    rw [hdelivers] at hid
    cases hid
  notification := by
    rw [h.notification, h.advisory, h.account, h.status]
    exact hok.notification
  idle := by
    rw [h.id]
    exact hidle
  silent _ := hdelivers
  knows := hknows
  own := by
    rw [h.own, h.status]
    exact hok.own

theorem Touch.held (h : Touch s s' t t') (hid : u.id ≠ t.id) (hholder : (s'.cell key).holder = some u.id)
    (hheld : Held s u key) : Held s' u key := by
  have hcell := h.cell_of_holder' hid hholder
  constructor
  · intro id hmem
    rw [State.Finds, h.statusFor, hcell]
    exact hheld.added id (hcell ▸ hmem)
  · rw [hcell]
    exact hheld.kept
  · rw [hcell]
    exact hheld.dropped

/-- A step within a transaction keeps the invariant, if it keeps what concerns the transaction itself. -/
theorem Inv.touch (h : Inv s) (ht : t ∈ s.txns.rows) (htouch : Touch s s' t t')
    (hcurrent : ∀ key row, (s'.cell key).current = some row → key ∈ s'.keys ∧ row.id < s'.nextRow ∧ row.Shape)
    (hheld : ∀ key, (s'.cell key).holder = some t.id → Held s' t' key) (hok : TxnOk s' t') : Inv s' where
  settled key := by
    rcases htouch.cells key with hsame | ⟨-, hholder⟩
    · rw [hsame]
      exact h.settled key
    · intro hnone
      rw [hholder] at hnone
      cases hnone
  known key row hrow := by
    rcases hrow with hrow | hrow
    · rw [htouch.committed] at hrow
      obtain ⟨hkey, hid, hshape⟩ := h.known key row (.inl hrow)
      exact ⟨htouch.keys key hkey, hid.trans_le htouch.nextRow, hshape⟩
    · exact hcurrent key row hrow
  follows key row hrow := by
    rw [htouch.committed] at hrow
    exact Tracks.follows (h.known key row (.inl hrow)).2.1 (htouch.follows key) (h.follows key row hrow)
  live key id hid := by
    rw [State.Live, htouch.status]
    rw [htouch.committed] at hid
    exact h.live key id hid
  held key i hholder := by
    by_cases hi : i = t.id
    · subst hi
      exact ⟨t', htouch.self, htouch.id, hheld key hholder⟩
    · have hcell : s'.cell key = s.cell key := by
        rcases htouch.cells key with hsame | ⟨-, hself⟩
        · exact hsame
        · rw [hself] at hholder
          exact absurd (Option.some.inj hholder).symm hi
      rw [hcell] at hholder
      obtain ⟨u, hu, rfl, huheld⟩ := h.held key i hholder
      exact ⟨u, htouch.others u hu hi, rfl, htouch.held hi (hcell ▸ hholder) huheld⟩
  txns u hu := by
    rcases htouch.txns u hu with rfl | ⟨hu, hid⟩
    · exact hok
    · exact htouch.txnOk hid (h.txns u hu)
  ids u hu := by
    rw [htouch.nextTxn]
    rcases htouch.txns u hu with rfl | ⟨hu, -⟩
    · exact htouch.id ▸ h.ids t ht
    · exact h.ids u hu
  advisory u hu v hv := by
    rcases htouch.txns u hu with rfl | ⟨hu, -⟩ <;> rcases htouch.txns v hv with rfl | ⟨hv, -⟩
    · exact fun _ _ _ => rfl
    · rw [htouch.advisory, htouch.account, htouch.id]
      exact h.advisory t ht v hv
    · rw [htouch.advisory, htouch.account, htouch.id]
      exact h.advisory u hu t ht
    · exact h.advisory u hu v hv
  own u hu v hv := by
    rcases htouch.txns u hu with rfl | ⟨hu, -⟩ <;> rcases htouch.txns v hv with rfl | ⟨hv, -⟩
    · exact fun _ _ _ _ _ => rfl
    · rw [htouch.own, htouch.id]
      exact h.own t ht v hv
    · rw [htouch.own, htouch.id]
      exact h.own u hu t ht
    · exact h.own u hu v hv
  statuses := by
    rw [htouch.status]
    exact h.statuses
  versions key := by
    rw [htouch.version, htouch.commits]
    exact h.versions key
  notifications := by
    rw [htouch.notifications, htouch.status]
    exact h.notifications
  delivered delivery hmem := by
    rw [htouch.delivered] at hmem
    rw [htouch.status]
    refine ⟨(h.delivered delivery hmem).1, fun status key hstatus hlive hkey => ?_⟩
    rw [htouch.committed]
    exact (h.delivered delivery hmem).2 status key hstatus hlive hkey

end Rustodon.Conversations
