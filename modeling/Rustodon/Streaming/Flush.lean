import Rustodon.Queue.Steps
import Rustodon.Schemes.FirstWins
import Rustodon.Schemes.Runs
import Rustodon.Streaming.Staging

/-! @src jobs.rs | name:Flushing stream events | scheme:first wins | family:streaming

    Whether a transaction stages its events or not, and in how many parts, its flush leaves what
    inserting them one by one would leave; and the transactions do so in the order in which they
    commit, since the order lock is held from the first identifier to the end. -/

namespace Rustodon.Staging
open Schemes.FirstWins Schemes.Json Schemes.Runs
open Rustodon.Queue (Event TxnId own others mem_own mem_others)

abbrev Entry := String × Value

def PendingStreamEvent.entry (event : PendingStreamEvent) : Entry :=
  (event.logicalKey, streamEventPayload event)

def rowEntry (row : Event) : Entry := (row.logicalKey.getD "", row.payload)

def ofKind (kind : String) (rows : List Event) : List Event :=
  rows.filter fun row => decide (row.kind = kind)

def entries (kind : String) (rows : List Event) : List Entry := (ofKind kind rows).map rowEntry

@[simp] theorem ofKind_append (kind : String) (rows rows' : List Event) :
    ofKind kind (rows ++ rows') = ofKind kind rows ++ ofKind kind rows' := List.filter_append ..

@[simp] theorem entries_append (kind : String) (rows rows' : List Event) :
    entries kind (rows ++ rows') = entries kind rows ++ entries kind rows' := by simp [entries]

theorem mem_ofKind {kind : String} {rows : List Event} {row : Event} :
    row ∈ ofKind kind rows ↔ row ∈ rows ∧ row.kind = kind := by simp [ofKind]

/-- Stream events, staged or not, have keys. -/
def Keyed (row : Event) : Prop :=
  row.kind = streamEventKind ∨ row.kind = streamEventStagingKind → row.logicalKey.isSome = true

variable {s s' : State} {t t' : TxnId} {kind key : String} {payload : Value} {stamp : ℤ}

/-! ### Rows of a transaction -/

@[simp] theorem own_append {α : Type} (t : TxnId) (pending pending' : List (TxnId × α)) :
    own t (pending ++ pending') = own t pending ++ own t pending' := by simp [own]

@[simp] theorem own_map_self {α : Type} (t : TxnId) (rows : List α) :
    own t (rows.map fun row => (t, row)) = rows := by
  simp [own, List.filter_map, Function.comp_def]

theorem own_map_ne {α : Type} (h : t ≠ t') (rows : List α) :
    own t (rows.map fun row => (t', row)) = [] := by
  simp [own, List.filter_map, Function.comp_def, h.symm]

@[simp] theorem own_others_self {α : Type} (t : TxnId) (pending : List (TxnId × α)) :
    own t (others t pending) = [] := by
  simp [own, others, List.filter_filter]

theorem own_others_ne {α : Type} (h : t ≠ t') (pending : List (TxnId × α)) :
    own t (others t' pending) = own t pending := by
  simp only [own, others, List.filter_filter]
  congr 1
  refine List.filter_congr fun row _ => ?_
  by_cases hrow : row.1 = t <;> simp [hrow, h]

/-! ### Insertions -/

theorem any_occupies_iff {rows : List Event}
    (hkind : kind = streamEventKind ∨ kind = streamEventStagingKind)
    (hkeyed : ∀ row ∈ rows, Keyed row) :
    rows.any (occupies kind key) = true ↔ key ∈ (entries kind rows).map Prod.fst := by
  simp only [List.any_eq_true, occupies, Bool.and_eq_true, decide_eq_true_eq, entries,
    List.map_map, List.mem_map, mem_ofKind, Function.comp_apply, rowEntry]
  constructor
  · rintro ⟨row, hrow, hk, hkey⟩
    exact ⟨row, ⟨hrow, hk⟩, by rw [hkey]; rfl⟩
  · rintro ⟨row, ⟨hrow, rfl⟩, rfl⟩
    obtain ⟨key, hkey⟩ := Option.isSome_iff_exists.mp (hkeyed row hrow hkind)
    exact ⟨row, hrow, rfl, by rw [hkey]; rfl⟩

/-- The spec lemma of an insertion: a row in the way, or a new row with no row in the way. -/
theorem insertRow_cases {allocated : Option ℕ}
    (h : s.insertRow t kind key payload stamp = some (s', allocated)) :
    ((s.visible t).any (occupies kind key) = true ∧ s' = { s with nextId := s.nextId + 1 } ∧
      allocated = none) ∨
    ((s.visible t).any (occupies kind key) = false ∧
      s' = { s with
        nextId := s.nextId + 1
        pending := s.pending ++ [(t, ⟨s.nextId, kind, some key, payload, some stamp⟩)] } ∧
      allocated = some s.nextId) := by
  unfold State.insertRow at h
  split_ifs at h with hwait hvisible
  · obtain ⟨rfl, rfl⟩ := Prod.mk.inj (Option.some.inj h)
    exact .inl ⟨hvisible, rfl, rfl⟩
  · obtain ⟨rfl, rfl⟩ := Prod.mk.inj (Option.some.inj h)
    exact .inr ⟨Bool.eq_false_iff.mpr hvisible, rfl, rfl⟩

/-- A transaction has inserted some rows, and taken their identifiers. -/
structure Inserted (s s' : State) (t : TxnId) (rows : List Event) : Prop where
  committed : s'.committed = s.committed
  pending : s'.pending = s.pending ++ rows.map fun row => (t, row)
  orderLock : s'.orderLock = s.orderLock
  batches : s'.batches = s.batches
  phases : s'.phases = s.phases
  nextId_le : s.nextId ≤ s'.nextId
  ascending : rows.Pairwise fun row row' => row.id < row'.id
  fresh : ∀ row ∈ rows, s.nextId ≤ row.id ∧ row.id < s'.nextId
  keyed : ∀ row ∈ rows, row.logicalKey.isSome = true

theorem Inserted.own_self {rows : List Event} (h : Inserted s s' t rows) :
    own t s'.pending = own t s.pending ++ rows := by rw [h.pending]; simp

theorem Inserted.own_ne {rows : List Event} (h : Inserted s s' t rows) (hne : t' ≠ t) :
    own t' s'.pending = own t' s.pending := by rw [h.pending]; simp [own_map_ne hne]

theorem Inserted.visible {rows : List Event} (h : Inserted s s' t rows) :
    s'.visible t = s.visible t ++ rows := by
  rw [State.visible, State.visible, h.own_self, h.committed, List.append_assoc]

theorem Inserted.refl (s : State) (t : TxnId) : Inserted s s t [] where
  committed := rfl
  pending := by simp
  orderLock := rfl
  batches := rfl
  phases := rfl
  nextId_le := le_rfl
  ascending := .nil
  fresh _ h := nomatch h
  keyed _ h := nomatch h

theorem Inserted.trans {s'' : State} {rows rows' : List Event} (h : Inserted s s' t rows)
    (h' : Inserted s' s'' t rows') : Inserted s s'' t (rows ++ rows') where
  committed := h'.committed.trans h.committed
  pending := by rw [h'.pending, h.pending]; simp
  orderLock := h'.orderLock.trans h.orderLock
  batches := h'.batches.trans h.batches
  phases := h'.phases.trans h.phases
  nextId_le := h.nextId_le.trans h'.nextId_le
  ascending := List.pairwise_append.mpr ⟨h.ascending, h'.ascending, fun row hrow row' hrow' =>
    (h.fresh row hrow).2.trans_le (h'.fresh row' hrow').1⟩
  fresh row hrow := by
    rcases List.mem_append.mp hrow with hrow | hrow
    · exact ⟨(h.fresh row hrow).1, (h.fresh row hrow).2.trans_le h'.nextId_le⟩
    · exact ⟨h.nextId_le.trans (h'.fresh row hrow).1, (h'.fresh row hrow).2⟩
  keyed row hrow := (List.mem_append.mp hrow).elim (h.keyed row) (h'.keyed row)

/-- What an insertion records of the kind. -/
theorem insertRow_inserted {allocated : Option ℕ}
    (h : s.insertRow t kind key payload stamp = some (s', allocated)) :
    ∃ rows, Inserted s s' t rows ∧ (∀ row ∈ rows, row.kind = kind) ∧
      allocated.toList = rows.map Event.id ∧
      ((kind = streamEventKind ∨ kind = streamEventStagingKind) →
        (∀ row ∈ s.visible t, Keyed row) →
        entries kind (s'.visible t) =
          record Prod.fst (entries kind (s.visible t)) (key, payload)) := by
  rcases insertRow_cases h with ⟨hvisible, rfl, rfl⟩ | ⟨hvisible, rfl, rfl⟩
  · refine ⟨[], ⟨rfl, by simp, rfl, rfl, rfl, Nat.le_succ _, .nil, nofun, nofun⟩, nofun, rfl, ?_⟩
    intro hkind hkeyed
    exact (record_of_mem ((any_occupies_iff hkind hkeyed).mp hvisible)).symm
  · have hinserted : Inserted s
        { s with
          nextId := s.nextId + 1
          pending := s.pending ++ [(t, ⟨s.nextId, kind, some key, payload, some stamp⟩)] } t
        [⟨s.nextId, kind, some key, payload, some stamp⟩] :=
      ⟨rfl, rfl, rfl, rfl, rfl, Nat.le_succ _, List.pairwise_singleton _ _, by simp, by simp⟩
    refine ⟨_, hinserted, by simp, rfl, fun hkind hkeyed => ?_⟩
    have hfree : key ∉ (entries kind (s.visible t)).map Prod.fst := fun hmem =>
      Bool.false_ne_true (hvisible.symm.trans ((any_occupies_iff hkind hkeyed).mpr hmem))
    have hrow : ofKind kind [⟨s.nextId, kind, some key, payload, some stamp⟩] =
        [⟨s.nextId, kind, some key, payload, some stamp⟩] := by simp [ofKind]
    rw [hinserted.visible, entries_append]
    refine Eq.trans ?_ (record_of_not_mem hfree).symm
    rw [entries, entries, hrow]
    rfl

/-- What an `INSERT … SELECT` records. -/
theorem insertRows_inserted {source : List Event} {allocated : List ℕ}
    (h : s.insertRows t kind stamp source = some (s', allocated)) :
    ∃ rows, Inserted s s' t rows ∧ (∀ row ∈ rows, row.kind = kind) ∧
      allocated = rows.map Event.id ∧
      ((kind = streamEventKind ∨ kind = streamEventStagingKind) →
        (∀ row ∈ s.visible t, Keyed row) →
        entries kind (s'.visible t) =
          recordAll Prod.fst (entries kind (s.visible t)) (source.map rowEntry)) := by
  induction source generalizing s allocated with
  | nil =>
    obtain ⟨rfl, rfl⟩ := Prod.mk.inj (Option.some.inj h)
    exact ⟨[], .refl s t, nofun, rfl, fun _ _ => rfl⟩
  | cons row source ih =>
    simp only [State.insertRows, Option.bind_eq_bind, Option.bind_eq_some_iff, Option.pure_def,
      Option.some.injEq, Prod.mk.injEq] at h
    obtain ⟨⟨m, first⟩, hrow, ⟨m', more⟩, hmore, rfl, rfl⟩ := h
    obtain ⟨rows, hinserted, hkind, hfirst, hrecord⟩ := insertRow_inserted hrow
    obtain ⟨rows', hinserted', hkind', rfl, hrecord'⟩ := ih hmore
    refine ⟨rows ++ rows', hinserted.trans hinserted', ?_, ?_, fun hstream hkeyed => ?_⟩
    · exact List.forall_mem_append.mpr ⟨hkind, hkind'⟩
    · rw [hfirst, List.map_append]
    · have hkeyed' : ∀ row ∈ m.visible t, Keyed row := by
        rw [hinserted.visible]
        exact List.forall_mem_append.mpr ⟨hkeyed, fun row hrow _ => hinserted.keyed row hrow⟩
      rw [hrecord' hstream hkeyed', hrecord hstream hkeyed]
      rfl

/-! ### The table -/

/-- The invariant of the table: nothing that is staged is ever committed, and the stream events are
    in the order of their identifiers, the pending ones behind all others. -/
structure TableInv (s : State) : Prop where
  not_staged : ∀ row ∈ s.committed, row.kind ≠ streamEventStagingKind
  keyed : ∀ row ∈ s.committed ++ s.pending.map Prod.snd, Keyed row
  committed_ascending :
    (ofKind streamEventKind s.committed).Pairwise fun row row' => row.id < row'.id
  pending_ascending : (s.pending.map Prod.snd).Pairwise fun row row' => row.id < row'.id
  behind : ∀ row ∈ ofKind streamEventKind s.committed,
    ∀ row' ∈ ofKind streamEventKind (s.pending.map Prod.snd), row.id < row'.id
  below : ∀ row ∈ s.committed ++ s.pending.map Prod.snd, row.id < s.nextId

theorem TableInv.of_same (h : TableInv s) (hcommitted : s'.committed = s.committed)
    (hpending : s'.pending = s.pending) (hnext : s'.nextId = s.nextId) : TableInv s' where
  not_staged := hcommitted ▸ h.not_staged
  keyed := by rw [hcommitted, hpending]; exact h.keyed
  committed_ascending := hcommitted ▸ h.committed_ascending
  pending_ascending := hpending ▸ h.pending_ascending
  behind := by rw [hcommitted, hpending]; exact h.behind
  below := by rw [hcommitted, hpending, hnext]; exact h.below

theorem TableInv.inserted (h : TableInv s) {rows : List Event} (hrows : Inserted s s' t rows) :
    TableInv s' := by
  have hpending : s'.pending.map Prod.snd = s.pending.map Prod.snd ++ rows := by
    rw [hrows.pending]; simp [Function.comp_def]
  refine ⟨hrows.committed ▸ h.not_staged, ?_, hrows.committed ▸ h.committed_ascending, ?_, ?_, ?_⟩
  · rw [hrows.committed, hpending, ← List.append_assoc]
    exact List.forall_mem_append.mpr ⟨h.keyed, fun row hrow _ => hrows.keyed row hrow⟩
  · rw [hpending]
    refine List.pairwise_append.mpr ⟨h.pending_ascending, hrows.ascending, ?_⟩
    intro row hrow row' hrow'
    exact (h.below row (List.mem_append_right _ hrow)).trans_le (hrows.fresh row' hrow').1
  · rw [hrows.committed, hpending, ofKind_append]
    intro row hrow row' hrow'
    rcases List.mem_append.mp hrow' with hrow' | hrow'
    · exact h.behind row hrow row' hrow'
    · have hbelow := h.below row (List.mem_append_left _ (mem_ofKind.mp hrow).1)
      exact hbelow.trans_le (hrows.fresh row' (mem_ofKind.mp hrow').1).1
  · rw [hrows.committed, hpending, ← List.append_assoc]
    refine List.forall_mem_append.mpr ⟨fun row hrow => ?_, fun row hrow => (hrows.fresh row hrow).2⟩
    exact (h.below row hrow).trans_le hrows.nextId_le

theorem TableInv.dropped (h : TableInv s) (hcommitted : s'.committed = s.committed)
    (hpending : s'.pending.Sublist s.pending) (hnext : s'.nextId = s.nextId) : TableInv s' := by
  have hsub : (s'.pending.map Prod.snd).Sublist (s.pending.map Prod.snd) := hpending.map _
  refine ⟨hcommitted ▸ h.not_staged, ?_, hcommitted ▸ h.committed_ascending,
    h.pending_ascending.sublist hsub, ?_, ?_⟩
  · rw [hcommitted]
    exact fun row hrow => h.keyed row ((List.Sublist.append_left hsub _).subset hrow)
  · rw [hcommitted]
    exact fun row hrow row' hrow' => h.behind row hrow row' ((hsub.filter _).subset hrow')
  · rw [hcommitted, hnext]
    exact fun row hrow => h.below row ((List.Sublist.append_left hsub _).subset hrow)

/-- A commit of a transaction that has nothing staged, when no other has stream events pending. -/
theorem TableInv.committed (h : TableInv s)
    (hcommitted : s'.committed = s.committed ++ own t s.pending)
    (hpending : s'.pending = others t s.pending) (hnext : s'.nextId = s.nextId)
    (hstaged : ofKind streamEventStagingKind (own t s.pending) = [])
    (halone : ofKind streamEventKind (own t s.pending) ≠ [] →
      ∀ t', t' ≠ t → ofKind streamEventKind (own t' s.pending) = []) : TableInv s' := by
  have hown : (own t s.pending).Sublist (s.pending.map Prod.snd) := List.filter_sublist.map _
  have hothers : ((others t s.pending).map Prod.snd).Sublist (s.pending.map Prod.snd) :=
    List.filter_sublist.map _
  have hmem : ∀ row ∈ own t s.pending ++ (others t s.pending).map Prod.snd,
      row ∈ s.pending.map Prod.snd := List.forall_mem_append.mpr ⟨hown.subset, hothers.subset⟩
  refine ⟨?_, ?_, ?_, ?_, ?_, ?_⟩
  · rw [hcommitted]
    refine List.forall_mem_append.mpr ⟨h.not_staged, fun row hrow hkind => ?_⟩
    exact List.ne_nil_of_mem (mem_ofKind.mpr ⟨hrow, hkind⟩) hstaged
  · rw [hcommitted, hpending, List.append_assoc]
    refine List.forall_mem_append.mpr ⟨fun row hrow => ?_, fun row hrow => ?_⟩
    · exact h.keyed row (List.mem_append_left _ hrow)
    · exact h.keyed row (List.mem_append_right _ (hmem row hrow))
  · rw [hcommitted, ofKind_append]
    refine List.pairwise_append.mpr ⟨h.committed_ascending,
      (h.pending_ascending.sublist hown).sublist List.filter_sublist, ?_⟩
    exact fun row hrow row' hrow' => h.behind row hrow row' ((hown.filter _).subset hrow')
  · rw [hpending]
    exact h.pending_ascending.sublist hothers
  · rw [hcommitted, hpending, ofKind_append]
    intro row hrow row' hrow'
    rcases List.mem_append.mp hrow with hrow | hrow
    · exact h.behind row hrow row' ((hothers.filter _).subset hrow')
    · obtain ⟨hrow', hkind⟩ := mem_ofKind.mp hrow'
      obtain ⟨⟨t', _⟩, hmem', rfl⟩ := List.mem_map.mp hrow'
      obtain ⟨hpend, hne⟩ := mem_others.mp hmem'
      have hnone := halone (List.ne_nil_of_mem hrow) t' hne
      exact absurd hnone (List.ne_nil_of_mem (mem_ofKind.mpr ⟨mem_own.mpr hpend, hkind⟩))
  · rw [hcommitted, hpending, hnext, List.append_assoc]
    refine List.forall_mem_append.mpr ⟨fun row hrow => ?_, fun row hrow => ?_⟩
    · exact h.below row (List.mem_append_left _ hrow)
    · exact h.below row (List.mem_append_right _ (hmem row hrow))

theorem visible_staged (h : TableInv s) (t : TxnId) :
    ofKind streamEventStagingKind (s.visible t) = ofKind streamEventStagingKind (own t s.pending) := by
  have hnone : ofKind streamEventStagingKind s.committed = [] :=
    List.filter_eq_nil_iff.mpr fun row hrow => by simpa using h.not_staged row hrow
  rw [State.visible, ofKind_append, hnone, List.nil_append]

theorem TableInv.own_ascending (h : TableInv s) (t : TxnId) :
    (own t s.pending).Pairwise fun row row' => row.id < row'.id :=
  h.pending_ascending.sublist (List.filter_sublist.map _)

theorem TableInv.visible_keyed (h : TableInv s) (t : TxnId) : ∀ row ∈ s.visible t, Keyed row := by
  refine List.forall_mem_append.mpr ⟨fun row hrow => ?_, fun row hrow => ?_⟩
  · exact h.keyed row (List.mem_append_left _ hrow)
  · have hmem : row ∈ s.pending.map Prod.snd := (List.filter_sublist.map Prod.snd).subset hrow
    exact h.keyed row (List.mem_append_right _ hmem)

/-- The staged rows are in order as they stand. -/
theorem stagedRows_eq (h : TableInv s) (t : TxnId) :
    s.stagedRows t = ofKind streamEventStagingKind (own t s.pending) := by
  rw [State.stagedRows]
  have hvisible := visible_staged h t
  rw [ofKind] at hvisible
  rw [hvisible]
  refine List.Pairwise.insertionSort_eq ?_
  exact ((h.own_ascending t).sublist List.filter_sublist).imp fun hlt => hlt.le

theorem hasStagedStreamEvents_iff (h : TableInv s) (t : TxnId) :
    s.hasStagedStreamEvents t = true ↔ ofKind streamEventStagingKind (own t s.pending) ≠ [] := by
  rw [← visible_staged h t, State.hasStagedStreamEvents, List.any_eq_true]
  constructor
  · rintro ⟨row, hrow, hkind⟩
    exact List.ne_nil_of_mem (mem_ofKind.mpr ⟨hrow, of_decide_eq_true hkind⟩)
  · intro hne
    obtain ⟨row, hrow⟩ := List.exists_mem_of_ne_nil _ hne
    obtain ⟨hvisible, hkind⟩ := mem_ofKind.mp hrow
    exact ⟨row, hvisible, decide_eq_true hkind⟩

/-! ### A transaction -/

/-- The stream events that are committed. -/
def State.base (s : State) : List Entry := entries streamEventKind s.committed

/-- The stream events that a transaction has inserted. -/
def State.streamed (s : State) (t : TxnId) : List Entry :=
  entries streamEventKind (own t s.pending)

def State.staged (s : State) (t : TxnId) : List Entry :=
  entries streamEventStagingKind (own t s.pending)

def State.batch (s : State) (t : TxnId) : List Entry :=
  (s.batches t).map PendingStreamEvent.entry

/-- What a transaction has still to insert. -/
def State.remaining (s : State) (t : TxnId) : List Entry := s.staged t ++ s.batch t

/-- What is known of a transaction where it is. -/
def State.AtPhase (s : State) (t : TxnId) : Phase → Prop
  | .collecting | .draining => True
  | .locking true => s.batch t = []
  | .locking false => s.staged t = []
  | .inserting => s.orderLock = some t ∧ s.staged t = []
  | .selecting => s.orderLock = some t ∧ s.batch t = []
  | .deleting => s.orderLock = some t ∧ s.batch t = [] ∧
      ∀ entry ∈ s.staged t, entry.1 ∈ (s.base ++ s.streamed t).map Prod.fst
  | .flushed => s.remaining t = []
  | .ended => s.orderLock ≠ some t ∧ own t s.pending = [] ∧ s.batch t = []

/-- The invariant of a transaction that has been given some events: recording them is recording
    what it has still to insert behind what it has inserted. Before it holds the lock this is so
    whatever others may have committed by then. -/
structure TxnInv (s : State) (t : TxnId) (given : List Entry) : Prop where
  at_phase : s.AtPhase t (s.phases t)
  locked : s.orderLock ≠ some t → s.streamed t = []
  content : s.phases t ≠ .ended → ∀ base, (s.orderLock = some t → base = s.base) →
    recordAll Prod.fst base given = recordAll Prod.fst (base ++ s.streamed t) (s.remaining t)

/-- A transaction is where it was when another one has taken a step. -/
theorem TxnInv.frame {given : List Entry} (h : TxnInv s t given)
    (hpending : own t s'.pending = own t s.pending) (hbatch : s'.batches t = s.batches t)
    (hphase : s'.phases t = s.phases t) (hlock : s'.orderLock = some t ↔ s.orderLock = some t)
    (hbase : s.orderLock = some t → s'.base = s.base) : TxnInv s' t given := by
  have hstreamed : s'.streamed t = s.streamed t := by rw [State.streamed, hpending]; rfl
  have hstaged : s'.staged t = s.staged t := by rw [State.staged, hpending]; rfl
  have hbatch' : s'.batch t = s.batch t := by rw [State.batch, hbatch]; rfl
  have hremaining : s'.remaining t = s.remaining t := by
    rw [State.remaining, hstaged, hbatch']; rfl
  refine ⟨?_, fun hne => hstreamed.trans (h.locked fun hlocked => hne (hlock.mpr hlocked)), ?_⟩
  · have hat := h.at_phase
    rw [hphase]
    cases hcase : s.phases t with
    | collecting | draining => trivial
    | locking staged =>
      rw [hcase] at hat
      cases staged with
      | true => exact hbatch'.trans hat
      | false => exact hstaged.trans hat
    | inserting =>
      rw [hcase] at hat
      exact ⟨hlock.mpr hat.1, hstaged.trans hat.2⟩
    | selecting =>
      rw [hcase] at hat
      exact ⟨hlock.mpr hat.1, hbatch'.trans hat.2⟩
    | deleting =>
      rw [hcase] at hat
      refine ⟨hlock.mpr hat.1, hbatch'.trans hat.2.1, ?_⟩
      rw [hstaged, hbase hat.1, hstreamed]
      exact hat.2.2
    | flushed =>
      rw [hcase] at hat
      exact hremaining.trans hat
    | ended =>
      rw [hcase] at hat
      exact ⟨fun hlocked => hat.1 (hlock.mp hlocked), hpending.trans hat.2.1, hbatch'.trans hat.2.2⟩
  · intro hopen base hbase'
    rw [hstreamed, hremaining]
    refine h.content (hphase ▸ hopen) base fun hlocked => ?_
    rw [hbase' (hlock.mpr hlocked), hbase hlocked]

/-! ### What a transaction does -/

section Txn

variable {given : List Entry} {rows : List Event}

theorem ofKind_of_ne {kind kind' : String} (hkind : ∀ row ∈ rows, row.kind = kind)
    (hne : kind ≠ kind') : ofKind kind' rows = [] :=
  List.filter_eq_nil_iff.mpr fun row hrow => by simpa [hkind row hrow] using hne

theorem Inserted.base (h : Inserted s s' t rows) : s'.base = s.base :=
  congrArg (entries streamEventKind) h.committed

theorem Inserted.batch (h : Inserted s s' t rows) : s'.batch t = s.batch t := by
  rw [State.batch, h.batches]; rfl

theorem Inserted.streamed_eq (h : Inserted s s' t rows) (hkind : ∀ row ∈ rows, row.kind = kind)
    (hne : kind ≠ streamEventKind) : s'.streamed t = s.streamed t := by
  rw [State.streamed, h.own_self, entries_append, entries, entries, ofKind_of_ne hkind hne,
    List.map_nil, List.append_nil]
  rfl

theorem Inserted.staged_eq (h : Inserted s s' t rows) (hkind : ∀ row ∈ rows, row.kind = kind)
    (hne : kind ≠ streamEventStagingKind) : s'.staged t = s.staged t := by
  rw [State.staged, h.own_self, entries_append, entries, entries, ofKind_of_ne hkind hne,
    List.map_nil, List.append_nil]
  rfl

theorem kinds_ne : streamEventKind ≠ streamEventStagingKind := by decide

theorem visible_streamed (s : State) (t : TxnId) :
    entries streamEventKind (s.visible t) = s.base ++ s.streamed t := by
  rw [State.visible, entries_append]; rfl

theorem visible_staging (h : TableInv s) (t : TxnId) :
    entries streamEventStagingKind (s.visible t) = s.staged t := by
  rw [entries, visible_staged h]; rfl

/-- A change of phase alone. -/
theorem TxnInv.setPhase (h : TxnInv s t given) {phase : Phase} (hopen : s.phases t ≠ .ended)
    (hat : s.AtPhase t phase) : TxnInv (s.setPhase t phase) t given where
  at_phase := by
    have hphase : (s.setPhase t phase).phases t = phase := if_pos rfl
    rw [hphase]
    cases phase with
    | locking staged => cases staged <;> exact hat
    | _ => exact hat
  locked := h.locked
  content _ := h.content hopen

/-- The end of a transaction, however it ends. -/
theorem txnInv_ended (h : s'.phases t = .ended) (hlock : s'.orderLock ≠ some t)
    (hpending : own t s'.pending = []) (hbatch : s'.batches t = []) : TxnInv s' t given where
  at_phase := by
    rw [h]
    exact ⟨hlock, hpending, by rw [State.batch, hbatch]; rfl⟩
  locked _ := by rw [State.streamed, hpending]; rfl
  content hopen := absurd h hopen

theorem Phase.open_of_between {phase : Phase} (h : phase.between = true) : phase ≠ .ended := by
  rintro rfl
  cases h

theorem txnInv_push (h : TxnInv s t given) (hopen : s.phases t ≠ .ended)
    (events : List PendingStreamEvent) :
    TxnInv ((s.setBatch t (s.batches t ++ events)).setPhase t .collecting) t
      (given ++ events.map PendingStreamEvent.entry) := by
  have hbatch : ((s.setBatch t (s.batches t ++ events)).setPhase t .collecting).batch t =
      s.batch t ++ events.map PendingStreamEvent.entry := by
    simp [State.batch, State.setPhase, State.setBatch]
  refine ⟨?_, h.locked, fun _ base hbase => ?_⟩
  · rw [State.setPhase]
    simp only [↓reduceIte]
    trivial
  · rw [State.remaining, hbatch, ← List.append_assoc, recordAll_append, h.content hopen base hbase]
    exact recordAll_append.symm

theorem recordAll_record {base staged batch : List Entry} {entry : Entry} :
    recordAll Prod.fst base (record Prod.fst staged entry ++ batch) =
      recordAll Prod.fst base (staged ++ entry :: batch) := by
  rw [record]
  split_ifs with hmem
  · exact (recordAll_drop hmem).symm
  · simp

theorem txnInv_stage (htable : TableInv s) (h : TxnInv s t given)
    (hphase : s.phases t = .collecting ∨ s.phases t = .draining) {event : PendingStreamEvent}
    {events : List PendingStreamEvent} (hbatch : s.batches t = event :: events)
    (hrows : Inserted s s' t rows) (hkind : ∀ row ∈ rows, row.kind = streamEventStagingKind)
    (hrecord : entries streamEventStagingKind (s'.visible t) =
      record Prod.fst (entries streamEventStagingKind (s.visible t)) event.entry)
    (htable' : TableInv s') : TxnInv (s'.setBatch t events) t given := by
  rw [visible_staging htable', visible_staging htable] at hrecord
  have hstreamed := hrows.streamed_eq hkind kinds_ne.symm
  have hopen : s.phases t ≠ .ended := by rcases hphase with hphase | hphase <;> simp [hphase]
  refine ⟨?_, fun hne => hstreamed.trans (h.locked (hrows.orderLock ▸ hne)), fun _ base hbase => ?_⟩
  · rw [State.setBatch]
    simp only
    rw [hrows.phases]
    rcases hphase with hphase | hphase <;> rw [hphase] <;> trivial
  · have hremaining : (s'.setBatch t events).remaining t =
        record Prod.fst (s.staged t) event.entry ++ events.map PendingStreamEvent.entry := by
      rw [← hrecord]
      simp [State.remaining, State.batch, State.setBatch, State.staged]
    have hold : s.remaining t =
        s.staged t ++ event.entry :: events.map PendingStreamEvent.entry := by
      rw [State.remaining, State.batch, hbatch]; rfl
    have hbase' : s.orderLock = some t → base = s.base := fun hlock =>
      (hbase (hrows.orderLock.trans hlock)).trans hrows.base
    rw [hremaining, recordAll_record, ← hold]
    exact (h.content hopen base hbase').trans (by rw [← hstreamed]; rfl)

theorem txnInv_lock (h : TxnInv s t given) {staged : Bool} (hphase : s.phases t = .locking staged) :
    TxnInv (({ s with orderLock := some t } : State).setPhase t
      (if staged then .selecting else .inserting)) t given := by
  have hat := h.at_phase
  rw [hphase] at hat
  refine ⟨?_, fun hne => absurd rfl hne, fun _ base hbase => ?_⟩
  · have hphase' : (({ s with orderLock := some t } : State).setPhase t
        (if staged then .selecting else .inserting)).phases t =
          if staged then .selecting else .inserting := if_pos rfl
    rw [hphase']
    cases staged with
    | true => exact ⟨rfl, hat⟩
    | false => exact ⟨rfl, hat⟩
  · exact h.content (by simp [hphase]) base fun _ => hbase rfl

theorem txnInv_insert (h : TxnInv s t given) (hphase : s.phases t = .inserting)
    {event : PendingStreamEvent} {events : List PendingStreamEvent}
    (hbatch : s.batches t = event :: events) (hrows : Inserted s s' t rows)
    (hkind : ∀ row ∈ rows, row.kind = streamEventKind)
    (hrecord : entries streamEventKind (s'.visible t) =
      record Prod.fst (entries streamEventKind (s.visible t)) event.entry) :
    TxnInv ((s'.setBatch t events).setPhase t (if events.isEmpty then .flushed else .inserting)) t
      given := by
  rw [visible_streamed, visible_streamed] at hrecord
  have hat := h.at_phase
  rw [hphase] at hat
  obtain ⟨hlock, hstaged⟩ := hat
  have hlock' : s'.orderLock = some t := hrows.orderLock.trans hlock
  have hstaged' : s'.staged t = [] := (hrows.staged_eq hkind kinds_ne).trans hstaged
  have hbatch' : ((s'.setBatch t events).setPhase t
      (if events.isEmpty then .flushed else .inserting)).batch t =
        events.map PendingStreamEvent.entry := by
    simp [State.batch, State.setPhase, State.setBatch]
  refine ⟨?_, fun hne => absurd hlock' hne, fun _ base hbase => ?_⟩
  · have hphase' : ((s'.setBatch t events).setPhase t
        (if events.isEmpty then .flushed else .inserting)).phases t =
          if events.isEmpty then .flushed else .inserting := if_pos rfl
    rw [hphase']
    cases events with
    | nil =>
      show State.remaining _ t = []
      rw [State.remaining, hbatch']
      exact List.append_eq_nil_iff.mpr ⟨hstaged', rfl⟩
    | cons _ _ => exact ⟨hlock', hstaged'⟩
  · have hbase' : base = s.base := (hbase hlock').trans hrows.base
    rw [h.content (by simp [hphase]) base fun _ => hbase', State.remaining, State.remaining, hbatch',
      State.batch, hbatch, hstaged, hbase']
    have hstaged'' : ((s'.setBatch t events).setPhase t
        (if events.isEmpty then .flushed else .inserting)).staged t = [] := hstaged'
    rw [hstaged'', List.nil_append, List.nil_append, List.map_cons, recordAll_cons, ← hrecord,
      hrows.base]
    rfl

theorem txnInv_insertStaged (htable : TableInv s) (h : TxnInv s t given)
    (hphase : s.phases t = .selecting) (hrows : Inserted s s' t rows)
    (hkind : ∀ row ∈ rows, row.kind = streamEventKind)
    (hrecord : entries streamEventKind (s'.visible t) =
      recordAll Prod.fst (entries streamEventKind (s.visible t))
        ((s.stagedRows t).map rowEntry)) :
    TxnInv (s'.setPhase t .deleting) t given := by
  rw [visible_streamed, visible_streamed, stagedRows_eq htable] at hrecord
  have hrecord : s'.base ++ s'.streamed t =
      recordAll Prod.fst (s.base ++ s.streamed t) (s.staged t) := hrecord
  have hat := h.at_phase
  rw [hphase] at hat
  obtain ⟨hlock, hbatch⟩ := hat
  have hlock' : s'.orderLock = some t := hrows.orderLock.trans hlock
  have hstaged' : s'.staged t = s.staged t := hrows.staged_eq hkind kinds_ne
  have hbatch' : s'.batch t = [] := hrows.batch.trans hbatch
  have hkeys : ∀ entry ∈ s'.staged t, entry.1 ∈ (s'.base ++ s'.streamed t).map Prod.fst := by
    intro entry hentry
    rw [hrecord]
    exact mem_keys_recordAll.mpr (.inr (List.mem_map_of_mem (hstaged' ▸ hentry)))
  refine ⟨?_, fun hne => absurd hlock' hne, fun _ base hbase => ?_⟩
  · have hphase' : (s'.setPhase t .deleting).phases t = .deleting := if_pos rfl
    rw [hphase']
    exact ⟨hlock', hbatch', hkeys⟩
  · have hbase' : base = s'.base := hbase hlock'
    rw [h.content (by simp [hphase]) base fun _ => hbase'.trans hrows.base, hbase', hrows.base,
      State.remaining, hbatch, List.append_nil, ← hrecord]
    have hremaining : (s'.setPhase t .deleting).remaining t = s'.staged t := by
      show s'.staged t ++ s'.batch t = s'.staged t
      rw [hbatch', List.append_nil]
    rw [hremaining]
    rw [← hrows.base]
    exact (recordAll_of_forall_mem hkeys).symm

theorem own_deleteStaged_self (s : State) (t : TxnId) :
    own t (s.deleteStaged t).pending =
      (own t s.pending).filter fun row => decide (row.kind ≠ streamEventStagingKind) := by
  simp only [State.deleteStaged, own, List.filter_filter, List.filter_map]
  congr 1
  refine List.filter_congr fun row _ => ?_
  by_cases hrow : row.1 = t
  · simp [hrow, Bool.and_comm]
  · simp [beq_false_of_ne hrow]

theorem own_deleteStaged_ne (h : t' ≠ t) :
    own t' (s.deleteStaged t).pending = own t' s.pending := by
  simp only [State.deleteStaged, own, List.filter_filter]
  congr 1
  refine List.filter_congr fun row _ => ?_
  by_cases hrow : row.1 = t' <;> simp [hrow, h]

theorem txnInv_deleteStaged (h : TxnInv s t given) (hphase : s.phases t = .deleting) :
    TxnInv ((s.deleteStaged t).setPhase t .flushed) t given := by
  have hat := h.at_phase
  rw [hphase] at hat
  obtain ⟨hlock, hbatch, hkeys⟩ := hat
  have hstreamed : (s.deleteStaged t).streamed t = s.streamed t := by
    rw [State.streamed, own_deleteStaged_self, entries, ofKind, List.filter_filter, State.streamed,
      entries, ofKind]
    congr 1
    refine List.filter_congr fun row _ => ?_
    by_cases hkind : row.kind = streamEventKind <;> simp [hkind, kinds_ne]
  have hstaged : (s.deleteStaged t).staged t = [] := by
    rw [State.staged, own_deleteStaged_self, entries, ofKind, List.filter_filter]
    refine List.map_eq_nil_iff.mpr (List.filter_eq_nil_iff.mpr fun row _ => ?_)
    simp
  have hremaining : ((s.deleteStaged t).setPhase t .flushed).remaining t = [] := by
    show (s.deleteStaged t).staged t ++ s.batch t = []
    rw [hstaged, hbatch, List.nil_append]
  refine ⟨?_, fun hne => absurd hlock hne, fun _ base hbase => ?_⟩
  · have hphase' : ((s.deleteStaged t).setPhase t .flushed).phases t = .flushed := if_pos rfl
    rw [hphase']
    exact hremaining
  · have hbase' : base = s.base := hbase hlock
    rw [h.content (by simp [hphase]) base fun _ => hbase', hremaining, State.remaining, hbatch,
      List.append_nil, hbase', recordAll_of_forall_mem hkeys]
    show s.base ++ s.streamed t = s.base ++ (s.deleteStaged t).streamed t
    rw [hstreamed]

/-- Rows of other kinds are none of the stream events' business. -/
theorem txnInv_insertOther (h : TxnInv s t given) (hrows : Inserted s s' t rows)
    (hkind : ∀ row ∈ rows, row.kind = kind) (hstream : kind ≠ streamEventKind)
    (hstaging : kind ≠ streamEventStagingKind) (hbetween : (s.phases t).between = true) :
    TxnInv s' t given := by
  have hstreamed := hrows.streamed_eq hkind hstream
  have hstaged := hrows.staged_eq hkind hstaging
  have hremaining : s'.remaining t = s.remaining t := by
    rw [State.remaining, hstaged, hrows.batch]; rfl
  refine ⟨?_, fun hne => hstreamed.trans (h.locked (hrows.orderLock ▸ hne)), ?_⟩
  · have hat := h.at_phase
    rw [hrows.phases]
    cases hphase : s.phases t with
    | collecting => trivial
    | flushed =>
      rw [hphase] at hat
      exact hremaining.trans hat
    | _ => simp [hphase, Phase.between] at hbetween
  · intro hopen base hbase
    rw [hstreamed, hremaining]
    refine h.content (hrows.phases ▸ hopen) base fun hlock => ?_
    exact (hbase (hrows.orderLock.trans hlock)).trans hrows.base

end Txn

/-! ### Steps -/

/-- The events that a step gives to a transaction. -/
def Op.pushed (op : Op) (t : TxnId) : List PendingStreamEvent :=
  match op with
  | .push t' events => if t' = t then events else []
  | _ => []

def Op.commits : Op → Option TxnId
  | .commit t => some t
  | _ => none

/-- Whether a step is one of staging and flushing. -/
def Op.flushes : Op → Bool
  | .insertOther _ _ _ _ _ | .commit _ | .rollback _ => false
  | _ => true

/-- A row that is no stream event, staged or not. -/
def isOther (row : Event) : Bool :=
  decide (row.kind ≠ streamEventKind) && decide (row.kind ≠ streamEventStagingKind)

/-- What a step does, to its transaction and to all others. -/
structure Effect (s : State) (op : Op) (ids : List ℕ) (s' : State) : Prop where
  table : TableInv s'
  txn : ∀ given, TxnInv s op.txn given →
    TxnInv s' op.txn (given ++ (op.pushed op.txn).map PendingStreamEvent.entry)
  others : ∀ t, t ≠ op.txn → own t s'.pending = own t s.pending ∧ s'.batches t = s.batches t ∧
    s'.phases t = s.phases t ∧ (s'.orderLock = some t ↔ s.orderLock = some t)
  kept : op.commits = none → s'.base = s.base
  commits : op.commits ≠ none → op = .commit op.txn ∧ s.phases op.txn = .flushed ∧
    s'.base = s.base ++ s.streamed op.txn ∧ s'.phases op.txn = .ended
  opened : s.phases op.txn ≠ .ended
  released : s.orderLock = some op.txn → s'.orderLock = some op.txn ∨ s'.phases op.txn = .ended
  locked : ids ≠ [] → s.orderLock = some op.txn ∧ s'.orderLock = some op.txn
  ascending : ids.Pairwise (· < ·)
  fresh : ∀ id ∈ ids, s.nextId ≤ id ∧ id < s'.nextId
  nextId_le : s.nextId ≤ s'.nextId
  committed : ∀ row ∈ s'.committed, row ∈ s.committed ∨
    op = .commit op.txn ∧ row ∈ own op.txn s.pending
  pending : ∀ row ∈ s'.pending, row.2.kind = streamEventKind →
    row ∈ s.pending ∨ row.1 = op.txn ∧ row.2.id ∈ ids
  untouched : op.flushes = true → s'.committed = s.committed ∧
    (s'.pending.filter fun row => isOther row.2) = s.pending.filter fun row => isOther row.2

/-- A state with another batch and another phase for one transaction. -/
structure Local (m s' : State) (t : TxnId) : Prop where
  committed : s'.committed = m.committed
  pending : s'.pending = m.pending
  nextId : s'.nextId = m.nextId
  orderLock : s'.orderLock = m.orderLock
  others : ∀ t', t' ≠ t → s'.batches t' = m.batches t' ∧ s'.phases t' = m.phases t'

theorem local_setPhase (m : State) (t : TxnId) (phase : Phase) : Local m (m.setPhase t phase) t where
  committed := rfl
  pending := rfl
  nextId := rfl
  orderLock := rfl
  others _ hne := ⟨rfl, if_neg hne⟩

theorem local_setBatch (m : State) (t : TxnId) (batch : List PendingStreamEvent) :
    Local m (m.setBatch t batch) t where
  committed := rfl
  pending := rfl
  nextId := rfl
  orderLock := rfl
  others _ hne := ⟨if_neg hne, rfl⟩

theorem Local.trans {m m' s' : State} (h : Local m m' t) (h' : Local m' s' t) : Local m s' t where
  committed := h'.committed.trans h.committed
  pending := h'.pending.trans h.pending
  nextId := h'.nextId.trans h.nextId
  orderLock := h'.orderLock.trans h.orderLock
  others t' hne := ⟨((h'.others t' hne).1).trans (h.others t' hne).1,
    ((h'.others t' hne).2).trans (h.others t' hne).2⟩

theorem local_refl (m : State) (t : TxnId) : Local m m t :=
  ⟨rfl, rfl, rfl, rfl, fun _ _ => ⟨rfl, rfl⟩⟩

/-- Steps that insert, be it nothing. -/
theorem effect_inserted {m : State} {op : Op} {ids : List ℕ} {rows : List Event}
    (htable : TableInv s) (hopen : s.phases op.txn ≠ .ended) (hrows : Inserted s m op.txn rows)
    (hlocal : Local m s' op.txn) (hids : ids = (ofKind streamEventKind rows).map Event.id)
    (hlock : ids ≠ [] → s.orderLock = some op.txn) (hcommits : op.commits = none)
    (hother : op.flushes = true → ∀ row ∈ rows, isOther row = false)
    (htxn : ∀ given, TxnInv s op.txn given →
      TxnInv s' op.txn (given ++ (op.pushed op.txn).map PendingStreamEvent.entry)) :
    Effect s op ids s' where
  table := (htable.inserted hrows).of_same hlocal.committed hlocal.pending hlocal.nextId
  txn := htxn
  others t hne := by
    obtain ⟨hbatches, hphases⟩ := hlocal.others t hne
    refine ⟨?_, hbatches.trans (by rw [hrows.batches]), hphases.trans (by rw [hrows.phases]), ?_⟩
    · rw [hlocal.pending]
      exact hrows.own_ne hne
    · rw [hlocal.orderLock, hrows.orderLock]
  kept _ := congrArg (entries streamEventKind) (hlocal.committed.trans hrows.committed)
  commits h := absurd hcommits h
  opened := hopen
  released h := .inl ((hlocal.orderLock.trans hrows.orderLock).trans h)
  locked h := ⟨hlock h, (hlocal.orderLock.trans hrows.orderLock).trans (hlock h)⟩
  ascending := by
    rw [hids, List.pairwise_map]
    exact hrows.ascending.sublist List.filter_sublist
  fresh id hid := by
    rw [hids] at hid
    obtain ⟨row, hrow, rfl⟩ := List.mem_map.mp hid
    rw [hlocal.nextId]
    exact hrows.fresh row (mem_ofKind.mp hrow).1
  nextId_le := hrows.nextId_le.trans hlocal.nextId.ge
  committed row hrow := by
    rw [hlocal.committed, hrows.committed] at hrow
    exact .inl hrow
  pending row hrow hkind := by
    rw [hlocal.pending, hrows.pending] at hrow
    rcases List.mem_append.mp hrow with hrow | hrow
    · exact .inl hrow
    · obtain ⟨new, hnew, rfl⟩ := List.mem_map.mp hrow
      rw [hids]
      exact .inr ⟨rfl, List.mem_map_of_mem (mem_ofKind.mpr ⟨hnew, hkind⟩)⟩
  untouched hflushes := by
    have hnone : (rows.map fun row => (op.txn, row)).filter (fun row => isOther row.2) = [] := by
      refine List.filter_eq_nil_iff.mpr fun row hrow => ?_
      obtain ⟨new, hnew, rfl⟩ := List.mem_map.mp hrow
      exact Bool.eq_false_iff.mp (hother hflushes new hnew)
    refine ⟨hlocal.committed.trans hrows.committed, ?_⟩
    rw [hlocal.pending, hrows.pending, List.filter_append, hnone, List.append_nil]

/-- Steps that only change the batch or the phase of their transaction. -/
theorem effect_local {op : Op} (htable : TableInv s) (hopen : s.phases op.txn ≠ .ended)
    (hlocal : Local s s' op.txn) (hcommits : op.commits = none)
    (htxn : ∀ given, TxnInv s op.txn given →
      TxnInv s' op.txn (given ++ (op.pushed op.txn).map PendingStreamEvent.entry)) :
    Effect s op [] s' :=
  effect_inserted htable hopen (.refl s op.txn) hlocal rfl (fun h => absurd rfl h)
    hcommits (fun _ _ h => nomatch h) htxn

/-- Steps that end their transaction. -/
theorem effect_end {op : Op} (htable : TableInv s') (hopen : s.phases op.txn ≠ .ended)
    (hpending : s'.pending = others op.txn s.pending)
    (hlock : s'.orderLock = if s.orderLock = some op.txn then none else s.orderLock)
    (hbatches : s'.batches = fun t => if t = op.txn then [] else s.batches t)
    (hphases : s'.phases = fun t => if t = op.txn then .ended else s.phases t)
    (hnext : s'.nextId = s.nextId)
    (hcommitted : ∀ row ∈ s'.committed, row ∈ s.committed ∨
      op = .commit op.txn ∧ row ∈ own op.txn s.pending)
    (hflushes : op.flushes = false) (hkept : op.commits = none → s'.base = s.base)
    (hcommits : op.commits ≠ none → op = .commit op.txn ∧ s.phases op.txn = .flushed ∧
      s'.base = s.base ++ s.streamed op.txn) :
    Effect s op [] s' where
  table := htable
  txn given _ := by
    refine txnInv_ended (by rw [hphases]; exact if_pos rfl) ?_ ?_ (by rw [hbatches]; exact if_pos rfl)
    · rw [hlock]
      split_ifs with h
      · exact fun h => nomatch h
      · exact h
    · rw [hpending]
      exact own_others_self _ _
  others t hne := by
    refine ⟨?_, by rw [hbatches]; exact if_neg hne, by rw [hphases]; exact if_neg hne, ?_⟩
    · rw [hpending]
      exact own_others_ne hne _
    · rw [hlock]
      split_ifs with h
      · rw [h]
        exact iff_of_false (fun h => nomatch h) fun h => hne (Option.some.inj h).symm
      · rfl
  kept := hkept
  commits h := ⟨(hcommits h).1, (hcommits h).2.1, (hcommits h).2.2,
    by rw [hphases]; exact if_pos rfl⟩
  opened := hopen
  released _ := .inr (by rw [hphases]; exact if_pos rfl)
  locked h := absurd rfl h
  ascending := .nil
  fresh _ h := nomatch h
  nextId_le := hnext.ge
  committed := hcommitted
  pending row hrow _ := .inl (List.filter_sublist.subset (hpending ▸ hrow))
  untouched h := absurd (hflushes.symm.trans h) Bool.false_ne_true

/-- The events a step other than `push` gives. -/
theorem txn_of_nothing {op : Op} (h : op.pushed op.txn = [])
    (htxn : ∀ given, TxnInv s op.txn given → TxnInv s' op.txn given) :
    ∀ given, TxnInv s op.txn given →
      TxnInv s' op.txn (given ++ (op.pushed op.txn).map PendingStreamEvent.entry) := by
  intro given hgiven
  rw [h, List.map_nil, List.append_nil]
  exact htxn given hgiven

/-- Nothing is staged where no staged row is seen. -/
theorem staged_of_not_hasStaged (htable : TableInv s) (h : s.hasStagedStreamEvents t = false) :
    s.staged t = [] := by
  have hnone : ofKind streamEventStagingKind (own t s.pending) = [] := by
    by_contra hne
    exact Bool.false_ne_true (h.symm.trans ((hasStagedStreamEvents_iff htable t).mpr hne))
  rw [State.staged, entries, hnone, List.map_nil]

theorem effect_stage {event : PendingStreamEvent} {events : List PendingStreamEvent} {m : State}
    (htable : TableInv s) (hphase : s.phases t = .collecting ∨ s.phases t = .draining)
    (hbatch : s.batches t = event :: events) (hm : s.stageStreamEvent t event stamp = some m) :
    Effect s (.stage t stamp) [] (m.setBatch t events) := by
  obtain ⟨⟨m, allocated⟩, hinsert, rfl⟩ := Option.map_eq_some_iff.mp hm
  obtain ⟨rows, hrows, hkind, -, hrecord⟩ := insertRow_inserted hinsert
  refine effect_inserted htable ?_ hrows (local_setBatch m t events) ?_ (fun h => absurd rfl h) rfl
    (fun _ row hrow => by simp [isOther, hkind row hrow])
    (txn_of_nothing rfl fun given hgiven => ?_)
  · show s.phases t ≠ .ended
    rcases hphase with hphase | hphase <;> simp [hphase]
  · rw [ofKind_of_ne hkind kinds_ne.symm]; rfl
  · exact txnInv_stage htable hgiven hphase hbatch hrows hkind
      (hrecord (.inr rfl) (htable.visible_keyed t)) (htable.inserted hrows)

theorem effect_insert {event : PendingStreamEvent} {events : List PendingStreamEvent} {m : State}
    {id allocated : Option ℕ} (htable : TableInv s) (hlock : s.orderLock = some t)
    (hphase : s.phases t = .inserting) (hbatch : s.batches t = event :: events)
    (hm : s.insertPendingStreamEvent t event stamp = some (m, id, allocated)) :
    Effect s (.insert t stamp) allocated.toList
      ((m.setBatch t events).setPhase t (if events.isEmpty then .flushed else .inserting)) := by
  obtain ⟨⟨m', allocated'⟩, hinsert, heq⟩ := Option.map_eq_some_iff.mp hm
  obtain ⟨rfl, -, rfl⟩ : m' = m ∧ _ = id ∧ allocated' = allocated := by simpa using heq
  obtain ⟨rows, hrows, hkind, hids, hrecord⟩ := insertRow_inserted hinsert
  refine effect_inserted htable ?_ hrows ((local_setBatch m' t events).trans (local_setPhase _ t _))
    ?_ (fun _ => hlock) rfl (fun _ row hrow => by simp [isOther, hkind row hrow])
    (txn_of_nothing rfl fun given hgiven => ?_)
  · show s.phases t ≠ .ended
    simp [hphase]
  · rw [hids, ofKind, List.filter_eq_self.mpr fun row hrow => decide_eq_true (hkind row hrow)]
  · exact txnInv_insert hgiven hphase hbatch hrows hkind
      (hrecord (.inl rfl) (htable.visible_keyed t))

theorem effect_insertStaged {m : State} {allocated : List ℕ} (htable : TableInv s)
    (hlock : s.orderLock = some t) (hphase : s.phases t = .selecting)
    (hm : s.insertRows t streamEventKind stamp (s.stagedRows t) = some (m, allocated)) :
    Effect s (.insertStaged t stamp) allocated (m.setPhase t .deleting) := by
  obtain ⟨rows, hrows, hkind, hids, hrecord⟩ := insertRows_inserted hm
  refine effect_inserted htable ?_ hrows (local_setPhase m t .deleting) ?_ (fun _ => hlock) rfl
    (fun _ row hrow => by simp [isOther, hkind row hrow]) (txn_of_nothing rfl fun given hgiven => ?_)
  · show s.phases t ≠ .ended
    simp [hphase]
  · rw [hids, ofKind, List.filter_eq_self.mpr fun row hrow => decide_eq_true (hkind row hrow)]
  · exact txnInv_insertStaged htable hgiven hphase hrows hkind
      (hrecord (.inl rfl) (htable.visible_keyed t))

theorem effect_lock {staged : Bool} (htable : TableInv s) (hphase : s.phases t = .locking staged)
    (hfree : s.orderLock = none ∨ s.orderLock = some t) :
    Effect s (.lock t) [] (({ s with orderLock := some t } : State).setPhase t
      (if staged then .selecting else .inserting)) where
  table := htable.of_same rfl rfl rfl
  txn := txn_of_nothing rfl fun given hgiven => txnInv_lock hgiven hphase
  others t' hne := by
    refine ⟨rfl, rfl, if_neg hne, ?_⟩
    show some t = some t' ↔ s.orderLock = some t'
    have hne' : ¬ some t = some t' := fun h => hne (Option.some.inj h).symm
    rcases hfree with hfree | hfree <;> rw [hfree]
    · exact iff_of_false hne' fun h => nomatch h
  kept _ := rfl
  commits h := absurd rfl h
  opened := by
    show s.phases t ≠ .ended
    simp [hphase]
  released _ := .inl rfl
  locked h := absurd rfl h
  ascending := .nil
  fresh _ h := nomatch h
  nextId_le := le_rfl
  committed _ h := .inl h
  pending _ h _ := .inl h
  untouched _ := ⟨rfl, rfl⟩

theorem effect_deleteStaged (htable : TableInv s) (hphase : s.phases t = .deleting) :
    Effect s (.deleteStaged t) [] ((s.deleteStaged t).setPhase t .flushed) where
  table := htable.dropped rfl List.filter_sublist rfl
  txn := txn_of_nothing rfl fun given hgiven => txnInv_deleteStaged hgiven hphase
  others t' hne := ⟨own_deleteStaged_ne hne, rfl, if_neg hne, Iff.rfl⟩
  kept _ := rfl
  commits h := absurd rfl h
  opened := by
    show s.phases t ≠ .ended
    simp [hphase]
  released h := .inl h
  locked h := absurd rfl h
  ascending := .nil
  fresh _ h := nomatch h
  nextId_le := le_rfl
  committed _ h := .inl h
  pending _ h _ := .inl (List.filter_sublist.subset h)
  untouched _ := by
    refine ⟨rfl, ?_⟩
    simp only [State.setPhase, State.deleteStaged, List.filter_filter]
    refine List.filter_congr fun row _ => ?_
    by_cases hkind : row.2.kind = streamEventStagingKind <;> simp [isOther, hkind]

theorem effect_commit (htable : TableInv s) (htxn : ∀ t, ∃ given, TxnInv s t given)
    (hphase : s.phases t = .flushed) :
    Effect s (.commit t) []
      { s.endTransaction t with committed := s.committed ++ own t s.pending } := by
  obtain ⟨given, hgiven⟩ := htxn t
  have hat := hgiven.at_phase
  rw [hphase] at hat
  have hstaged : ofKind streamEventStagingKind (own t s.pending) = [] :=
    List.map_eq_nil_iff.mp (List.append_eq_nil_iff.mp hat).1
  refine effect_end ?_ ?_ rfl rfl rfl rfl rfl ?_ rfl (fun h => nomatch h)
    fun _ => ⟨rfl, hphase, ?_⟩
  · refine htable.committed rfl rfl rfl hstaged fun hne t' hne' => ?_
    obtain ⟨given', hgiven'⟩ := htxn t'
    have hlock : s.orderLock = some t := by
      by_contra hlock
      exact hne (List.map_eq_nil_iff.mp (hgiven.locked hlock))
    refine List.map_eq_nil_iff.mp (hgiven'.locked fun hlock' => hne' ?_)
    exact Option.some.inj (hlock'.symm.trans hlock)
  · show s.phases t ≠ .ended
    simp [hphase]
  · exact fun row hrow => (List.mem_append.mp hrow).imp_right fun hrow => ⟨rfl, hrow⟩
  · exact entries_append ..

/-- A step and all it does. -/
theorem step_effect {op : Op} {ids : List ℕ} (htable : TableInv s)
    (htxn : ∀ t, ∃ given, TxnInv s t given) (h : s.step op = some (s', ids)) :
    Effect s op ids s' := by
  cases op with
  | push t events =>
    simp only [State.step] at h
    split_ifs at h with hphase
    obtain ⟨rfl, rfl⟩ := Prod.mk.inj (Option.some.inj h)
    have hopen := Phase.open_of_between hphase
    refine effect_local htable hopen ((local_setBatch s t _).trans (local_setPhase _ t _)) rfl ?_
    intro given hgiven
    have hpushed : (Op.push t events).pushed t = events := if_pos rfl
    show TxnInv _ t (given ++ ((Op.push t events).pushed t).map _)
    rw [hpushed]
    exact txnInv_push hgiven hopen events
  | stage t stamp =>
    simp only [State.step] at h
    split_ifs at h with hphase
    split at h
    · cases h
    · obtain ⟨m, hm, heq⟩ := Option.map_eq_some_iff.mp h
      obtain ⟨rfl, rfl⟩ := Prod.mk.inj heq
      exact effect_stage htable hphase ‹_› hm
  | flushStream t =>
    simp only [State.step] at h
    split at h
    · rename_i hphase
      obtain ⟨rfl, rfl⟩ := Prod.mk.inj (Option.some.inj h)
      have hopen := Phase.open_of_between hphase
      refine effect_local htable hopen (local_setPhase s t _) rfl
        (txn_of_nothing rfl fun given hgiven => hgiven.setPhase hopen ?_)
      split_ifs with hstaged hempty
      · trivial
      · have hbatch : s.batch t = [] := List.map_eq_nil_iff.mpr (List.isEmpty_iff.mp hempty)
        exact List.append_eq_nil_iff.mpr
          ⟨staged_of_not_hasStaged htable (Bool.eq_false_iff.mpr hstaged), hbatch⟩
      · exact staged_of_not_hasStaged htable (Bool.eq_false_iff.mpr hstaged)
    · cases h
  | flushStaged t =>
    simp only [State.step] at h
    split_ifs at h with hphase
    obtain ⟨rfl, rfl⟩ := Prod.mk.inj (Option.some.inj h)
    have hopen := Phase.open_of_between hphase
    exact effect_local htable hopen (local_setPhase s t _) rfl (txn_of_nothing rfl fun given hgiven =>
      hgiven.setPhase hopen trivial)
  | check t =>
    simp only [State.step] at h
    split at h
    · rename_i hphase
      obtain ⟨rfl, rfl⟩ := Prod.mk.inj (Option.some.inj h)
      have hopen : s.phases t ≠ .ended := by simp [hphase.1]
      have hbatch : s.batch t = [] := List.map_eq_nil_iff.mpr hphase.2
      refine effect_local htable hopen (local_setPhase s t _) rfl
        (txn_of_nothing rfl fun given hgiven => hgiven.setPhase hopen ?_)
      split_ifs with hstaged
      · exact hbatch
      · exact List.append_eq_nil_iff.mpr
          ⟨staged_of_not_hasStaged htable (Bool.eq_false_iff.mpr hstaged), hbatch⟩
    · cases h
  | lock t =>
    simp only [State.step] at h
    split at h
    · split at h
      · obtain ⟨rfl, rfl⟩ := Prod.mk.inj (Option.some.inj h)
        exact effect_lock htable ‹_› ‹_›
      · cases h
    · cases h
  | insert t stamp =>
    simp only [State.step] at h
    split_ifs at h with hphase
    split at h
    · cases h
    · obtain ⟨⟨m, id, allocated⟩, hm, heq⟩ := Option.map_eq_some_iff.mp h
      obtain ⟨rfl, rfl⟩ := Prod.mk.inj heq
      obtain ⟨given, hgiven⟩ := htxn t
      have hat := hgiven.at_phase
      rw [hphase] at hat
      exact effect_insert htable hat.1 hphase ‹_› hm
  | insertStaged t stamp =>
    simp only [State.step] at h
    split_ifs at h with hphase
    obtain ⟨⟨m, allocated⟩, hm, heq⟩ := Option.map_eq_some_iff.mp h
    obtain ⟨rfl, rfl⟩ := Prod.mk.inj heq
    obtain ⟨given, hgiven⟩ := htxn t
    have hat := hgiven.at_phase
    rw [hphase] at hat
    exact effect_insertStaged htable hat.1 hphase hm
  | deleteStaged t =>
    simp only [State.step] at h
    split_ifs at h with hphase
    obtain ⟨rfl, rfl⟩ := Prod.mk.inj (Option.some.inj h)
    exact effect_deleteStaged htable hphase
  | insertOther t kind key payload stamp =>
    simp only [State.step] at h
    split_ifs at h with hcond
    obtain ⟨hbetween, hstream, hstaging⟩ := hcond
    obtain ⟨⟨m, allocated⟩, hinsert, heq⟩ := Option.map_eq_some_iff.mp h
    obtain ⟨rfl, rfl⟩ := Prod.mk.inj heq
    obtain ⟨rows, hrows, hkind, -, -⟩ := insertRow_inserted hinsert
    refine effect_inserted htable (Phase.open_of_between hbetween) hrows (local_refl m t) ?_
      (fun h => absurd rfl h) rfl (fun h => absurd h Bool.false_ne_true)
      (txn_of_nothing rfl fun given hgiven => ?_)
    · rw [ofKind_of_ne hkind hstream]; rfl
    · exact txnInv_insertOther hgiven hrows hkind hstream hstaging hbetween
  | commit t =>
    simp only [State.step] at h
    split_ifs at h with hphase
    obtain ⟨rfl, rfl⟩ := Prod.mk.inj (Option.some.inj h)
    exact effect_commit htable htxn hphase
  | rollback t =>
    simp only [State.step] at h
    split_ifs at h with hphase
    obtain ⟨rfl, rfl⟩ := Prod.mk.inj (Option.some.inj h)
    exact effect_end (htable.dropped rfl List.filter_sublist rfl) hphase rfl rfl rfl rfl rfl
      (fun _ hrow => .inl hrow) rfl (fun _ => rfl) fun h => absurd rfl h

/-! ### Identifiers -/

/-- What is known of the identifiers that have been allocated so far, with their transactions: those
    of two transactions do not interleave. -/
structure History (s : State) (allocated : List (TxnId × ℕ)) : Prop where
  owner : ∀ a ∈ allocated, s.orderLock = some a.1 ∨ s.phases a.1 = .ended
  ended : ∀ a ∈ allocated, ∀ b ∈ allocated, a.2 < b.2 → a.1 ≠ b.1 → s.phases a.1 = .ended
  below : ∀ a ∈ allocated, a.2 < s.nextId
  together : ∀ a ∈ allocated, ∀ b ∈ allocated, ∀ c ∈ allocated, a.2 < b.2 → b.2 < c.2 →
    a.1 = c.1 → b.1 = a.1

theorem Effect.ended {op : Op} {ids : List ℕ} (h : Effect s op ids s') (hover : s.phases t = .ended) :
    s'.phases t = .ended := by
  rcases eq_or_ne t op.txn with rfl | hne
  · exact absurd hover h.opened
  · exact ((h.others t hne).2.2.1).trans hover

theorem History.effect {op : Op} {ids : List ℕ} {allocated : List (TxnId × ℕ)}
    (h : History s allocated) (heffect : Effect s op ids s') :
    History s' (allocated ++ ids.map fun id => (op.txn, id)) := by
  have hnew : ∀ a ∈ ids.map (fun id => (op.txn, id)), a.1 = op.txn ∧ s.nextId ≤ a.2 ∧
      a.2 < s'.nextId ∧ s.orderLock = some op.txn ∧ s'.orderLock = some op.txn := by
    intro a ha
    obtain ⟨id, hid, rfl⟩ := List.mem_map.mp ha
    obtain ⟨hle, hlt⟩ := heffect.fresh id hid
    exact ⟨rfl, hle, hlt, heffect.locked (List.ne_nil_of_mem hid)⟩
  have hbefore : ∀ a ∈ allocated, ∀ b ∈ ids.map (fun id => (op.txn, id)), a.2 < b.2 :=
    fun a ha b hb => (h.below a ha).trans_le (hnew b hb).2.1
  have hpast : ∀ a ∈ allocated, s.orderLock = some op.txn → a.1 ≠ op.txn → s.phases a.1 = .ended :=
    fun a ha hlock hne => (h.owner a ha).resolve_left fun howner =>
      hne (Option.some.inj (howner.symm.trans hlock))
  refine ⟨?_, ?_, ?_, ?_⟩
  · intro a ha
    rcases List.mem_append.mp ha with ha | ha
    · rcases h.owner a ha with hlock | hover
      · rcases eq_or_ne a.1 op.txn with heq | hne
        · rw [heq] at hlock ⊢
          exact heffect.released hlock
        · exact .inl ((heffect.others a.1 hne).2.2.2.mpr hlock)
      · exact .inr (heffect.ended hover)
    · obtain ⟨htxn, -, -, -, hlock⟩ := hnew a ha
      exact .inl (htxn ▸ hlock)
  · intro a ha b hb hlt hne
    rcases List.mem_append.mp ha with ha | ha <;> rcases List.mem_append.mp hb with hb | hb
    · exact heffect.ended (h.ended a ha b hb hlt hne)
    · obtain ⟨htxn, -, -, hlock, -⟩ := hnew b hb
      exact heffect.ended (hpast a ha hlock (htxn ▸ hne))
    · exact absurd hlt (hbefore b hb a ha).not_gt
    · exact absurd ((hnew a ha).1.trans (hnew b hb).1.symm) hne
  · intro a ha
    rcases List.mem_append.mp ha with ha | ha
    · exact (h.below a ha).trans_le heffect.nextId_le
    · exact (hnew a ha).2.2.1
  · intro a ha b hb c hc hab hbc hac
    rcases List.mem_append.mp ha with ha | ha <;> rcases List.mem_append.mp hb with hb | hb <;>
      rcases List.mem_append.mp hc with hc | hc
    · exact h.together a ha b hb c hc hab hbc hac
    · obtain ⟨htxn, -, -, hlock, -⟩ := hnew c hc
      by_contra hne
      exact heffect.opened (htxn ▸ hac ▸ h.ended a ha b hb hab (Ne.symm hne))
    · exact absurd hbc (hbefore c hc b hb).not_gt
    · exact ((hnew b hb).1.trans (hnew c hc).1.symm).trans hac.symm
    · exact absurd hab (hbefore b hb a ha).not_gt
    · exact absurd hab (hbefore b hb a ha).not_gt
    · exact absurd hbc (hbefore c hc b hb).not_gt
    · exact (hnew b hb).1.trans (hnew a ha).1.symm

/-! ### Runs -/

/-- A table that no transaction is writing to. -/
structure Table where
  rows : List Event
  nextId : ℕ
  not_staged : ∀ row ∈ rows, row.kind ≠ streamEventStagingKind
  keyed : ∀ row ∈ rows, Keyed row
  ascending : rows.Pairwise fun row row' => row.id < row'.id
  below : ∀ row ∈ rows, row.id < nextId

def start (table : Table) : State where
  committed := table.rows
  pending := []
  nextId := table.nextId
  orderLock := none
  batches _ := []
  phases _ := .flushed

/-- The events that a transaction is given in a run. -/
def pushed (t : TxnId) (labels : List Label) : List PendingStreamEvent :=
  labels.flatMap fun label => label.1.pushed t

/-- The transactions that commit in a run, in their order. -/
def commits (labels : List Label) : List TxnId := labels.filterMap fun label => label.1.commits

/-- The events of the transactions that commit, in the order in which they do. -/
def committedEvents (labels : List Label) : List PendingStreamEvent :=
  (commits labels).flatMap fun t => pushed t labels

/-- The identifiers that a run allocates to stream events. -/
def allocated (labels : List Label) : List (TxnId × ℕ) :=
  labels.flatMap fun label => label.2.map fun id => (label.1.txn, id)

/-- The invariant of a run: the stream events are those that would be there had the transactions
    recorded their events one after the other, as they committed. -/
structure RunInv (table : Table) (labels : List Label) (s : State) : Prop where
  tableInv : TableInv s
  txn : ∀ t, TxnInv s t ((pushed t labels).map PendingStreamEvent.entry)
  base : s.base = recordAll Prod.fst (start table).base
    ((committedEvents labels).map PendingStreamEvent.entry)
  ended : ∀ t ∈ commits labels, s.phases t = .ended
  history : History s (allocated labels)
  committed : ∀ row ∈ s.committed, row.kind = streamEventKind →
    row ∈ table.rows ∨ ∃ t ∈ commits labels, (t, row.id) ∈ allocated labels
  pending : ∀ row ∈ s.pending, row.2.kind = streamEventKind →
    (row.1, row.2.id) ∈ allocated labels

theorem runInv_start (table : Table) : RunInv table [] (start table) where
  tableInv :=
    { not_staged := table.not_staged
      keyed := by simpa [start] using table.keyed
      committed_ascending := table.ascending.sublist List.filter_sublist
      pending_ascending := .nil
      behind := fun _ _ _ h => nomatch h
      below := by simpa [start] using table.below }
  txn t :=
    { at_phase := rfl
      locked := fun _ => rfl
      content := fun _ base _ => (List.append_nil base).symm }
  base := rfl
  ended _ h := nomatch h
  history :=
    { owner := fun _ h => nomatch h
      ended := fun _ h => nomatch h
      below := fun _ h => nomatch h
      together := fun _ h => nomatch h }
  committed _ h _ := .inl h
  pending _ h := nomatch h

theorem pushed_concat (t : TxnId) (labels : List Label) (label : Label) :
    pushed t (labels ++ [label]) = pushed t labels ++ label.1.pushed t := by simp [pushed]

theorem allocated_concat (labels : List Label) (label : Label) :
    allocated (labels ++ [label]) =
      allocated labels ++ label.2.map fun id => (label.1.txn, id) := by simp [allocated]

theorem Op.pushed_of_ne {op : Op} (h : t ≠ op.txn) : op.pushed t = [] := by
  cases op with
  | push t' events => exact if_neg (Ne.symm h)
  | _ => rfl

/-- The events of the transactions that have committed are settled. -/
theorem committedEvents_concat {labels : List Label} {label : Label}
    (hopen : label.1.txn ∉ commits labels) :
    committedEvents (labels ++ [label]) = committedEvents labels ++
      (label.1.commits.toList.flatMap fun t => pushed t (labels ++ [label])) := by
  have hcommits : commits (labels ++ [label]) = commits labels ++ label.1.commits.toList := by
    simp only [commits, List.filterMap_append]
    cases hop : label.1.commits <;> simp [hop]
  rw [committedEvents, hcommits, List.flatMap_append, committedEvents]
  congr 1
  refine List.flatMap_congr fun t ht => ?_
  have hne : t ≠ label.1.txn := fun heq => hopen (heq ▸ ht)
  rw [pushed_concat, Op.pushed_of_ne hne, List.append_nil]

theorem RunInv.step {table : Table} {labels : List Label} {label : Label}
    (h : RunInv table labels s) (hstep : Step s label s') :
    RunInv table (labels ++ [label]) s' := by
  have heffect : Effect s label.1 label.2 s' :=
    step_effect h.tableInv (fun t => ⟨_, h.txn t⟩) hstep
  have hopen : label.1.txn ∉ commits labels := fun hmem => heffect.opened (h.ended _ hmem)
  have hpushed : label.1.commits ≠ none →
      pushed label.1.txn (labels ++ [label]) = pushed label.1.txn labels := fun hcommits => by
    have hnone : label.1.pushed label.1.txn = [] := by rw [(heffect.commits hcommits).1]; rfl
    rw [pushed_concat, hnone, List.append_nil]
  refine ⟨heffect.table, fun t => ?_, ?_, ?_, ?_, ?_, ?_⟩
  · rw [pushed_concat, List.map_append]
    rcases eq_or_ne t label.1.txn with rfl | hne
    · exact heffect.txn _ (h.txn _)
    · obtain ⟨hpending, hbatch, hphase, hlock⟩ := heffect.others t hne
      rw [Op.pushed_of_ne hne, List.map_nil, List.append_nil]
      refine (h.txn t).frame hpending hbatch hphase hlock fun hlocked => ?_
      by_cases hcommits : label.1.commits = none
      · exact heffect.kept hcommits
      · have hstreamed : s.streamed label.1.txn = [] := (h.txn _).locked fun hlocked' =>
          hne (Option.some.inj (hlocked.symm.trans hlocked'))
        rw [(heffect.commits hcommits).2.2.1, hstreamed, List.append_nil]
  · rw [committedEvents_concat hopen]
    by_cases hcommits : label.1.commits = none
    · rw [heffect.kept hcommits, hcommits, h.base]
      simp
    · obtain ⟨hop, hphase, hbase, -⟩ := heffect.commits hcommits
      have hsome : label.1.commits = some label.1.txn := by rw [hop]; rfl
      have hat := (h.txn label.1.txn).at_phase
      rw [hphase] at hat
      have hremaining : s.remaining label.1.txn = [] := hat
      have hcontent := (h.txn label.1.txn).content heffect.opened s.base fun _ => rfl
      rw [hremaining, recordAll_nil] at hcontent
      rw [hsome, Option.toList_some, List.flatMap_cons, List.flatMap_nil, List.append_nil,
        hpushed hcommits, List.map_append, recordAll_append, ← h.base, hcontent, hbase]
  · intro t ht
    rw [commits, List.filterMap_append] at ht
    rcases List.mem_append.mp ht with ht | ht
    · exact heffect.ended (h.ended t ht)
    · have hsome : label.1.commits = some t := by simpa using ht
      have hcommits : label.1.commits ≠ none := by simp [hsome]
      obtain ⟨hop, -, -, hover⟩ := heffect.commits hcommits
      have htxn : t = label.1.txn := by
        rw [hop] at hsome
        exact (Option.some.inj hsome).symm
      exact htxn ▸ hover
  · rw [allocated_concat]
    exact h.history.effect heffect
  · intro row hrow hkind
    rw [allocated_concat]
    rcases heffect.committed row hrow with hrow | ⟨hop, hrow⟩
    · rcases h.committed row hrow hkind with hcommitted | ⟨t, ht, hid⟩
      · exact .inl hcommitted
      · exact .inr ⟨t, by rw [commits, List.filterMap_append]; exact List.mem_append_left _ ht,
          List.mem_append_left _ hid⟩
    · refine .inr ⟨label.1.txn, ?_, List.mem_append_left _ (h.pending _ (mem_own.mp hrow) hkind)⟩
      rw [commits, List.filterMap_append]
      refine List.mem_append_right _ ?_
      have hsome : label.1.commits = some label.1.txn := by rw [hop]; rfl
      simp [hsome]
  · intro row hrow hkind
    rw [allocated_concat]
    rcases heffect.pending row hrow hkind with hrow | ⟨htxn, hid⟩
    · exact List.mem_append_left _ (h.pending row hrow hkind)
    · exact List.mem_append_right _ (List.mem_map.mpr ⟨_, hid, by rw [htxn]⟩)

theorem runInv_of_run {table : Table} {labels : List Label} (h : Run Step (start table) labels s) :
    RunInv table labels s :=
  h.invariant (P := RunInv table) (runInv_start table) fun _ _ _ _ _ hinv hstep => hinv.step hstep

/-! ### One by one -/

/-- All events inserted with `insert_pending_stream_event_in`, one by one. -/
def State.insertOneByOne (s : State) (t : TxnId) (stamp : ℤ) :
    List PendingStreamEvent → Option State
  | [] => some s
  | event :: events => do
    let (s, _, _) ← s.insertPendingStreamEvent t event stamp
    s.insertOneByOne t stamp events

theorem others_append_own {α : Type} (t : TxnId) (pending : List (TxnId × α)) (rows : List α) :
    others t (pending ++ rows.map fun row => (t, row)) = others t pending := by
  simp [others, List.filter_append]

/-- Nothing waits where nobody else has anything pending. -/
theorem insertPendingStreamEvent_alone (halone : others t s.pending = [])
    (event : PendingStreamEvent) (stamp : ℤ) :
    ∃ s' rows ids, s.insertPendingStreamEvent t event stamp = some (s', ids) ∧
      Inserted s s' t rows ∧ ((∀ row ∈ s.visible t, Keyed row) →
        entries streamEventKind (s'.visible t) =
          record Prod.fst (entries streamEventKind (s.visible t)) event.entry) := by
  cases hinsert : s.insertRow t streamEventKind event.logicalKey (streamEventPayload event) stamp with
  | none =>
    unfold State.insertRow at hinsert
    rw [halone, List.any_nil, if_neg Bool.false_ne_true] at hinsert
    split_ifs at hinsert
  | some result =>
    obtain ⟨s', allocated⟩ := result
    obtain ⟨rows, hrows, -, -, hrecord⟩ := insertRow_inserted hinsert
    obtain ⟨ids, hids⟩ : ∃ ids, s.insertPendingStreamEvent t event stamp = some (s', ids) := by
      rw [State.insertPendingStreamEvent, hinsert]
      exact ⟨_, rfl⟩
    exact ⟨s', rows, ids, hids, hrows, hrecord (.inl rfl)⟩

theorem insertOneByOne_records {events : List PendingStreamEvent} (htable : TableInv s)
    (halone : others t s.pending = []) :
    ∃ s', s.insertOneByOne t stamp events = some s' ∧ TableInv s' ∧
      entries streamEventKind (s'.visible t) =
        recordAll Prod.fst (entries streamEventKind (s.visible t))
          (events.map PendingStreamEvent.entry) := by
  induction events generalizing s with
  | nil => exact ⟨s, rfl, htable, rfl⟩
  | cons event events ih =>
    obtain ⟨m, rows, ids, hinsert, hrows, hrecord⟩ :=
      insertPendingStreamEvent_alone halone event stamp
    have halone' : others t m.pending = [] := by
      rw [hrows.pending, others_append_own, halone]
    obtain ⟨s', hs', htable', hentries⟩ := ih (htable.inserted hrows) halone'
    refine ⟨s', ?_, htable', ?_⟩
    · rw [State.insertOneByOne, hinsert]
      exact hs'
    · rw [hentries, hrecord (htable.visible_keyed t)]
      rfl

/-- The stream events that a transaction sees are in the order of their identifiers. -/
theorem TableInv.visible_ascending (h : TableInv s) (t : TxnId) :
    (ofKind streamEventKind (s.visible t)).Pairwise fun row row' => row.id < row'.id := by
  have hown : (own t s.pending).Sublist (s.pending.map Prod.snd) := List.filter_sublist.map _
  rw [State.visible, ofKind_append]
  refine List.pairwise_append.mpr ⟨h.committed_ascending,
    (h.own_ascending t).sublist List.filter_sublist, fun row hrow row' hrow' => ?_⟩
  exact h.behind row hrow row' ((hown.filter _).subset hrow')

/-! ### Agreement -/

/-- The rows of a table as they are committed, and nothing else. -/
def State.atRest (s : State) : State := { s with pending := [] }

/-- The stream events that a list of rows leaves, in the order of their identifiers. -/
structure Leaves (s' : State) (t : TxnId) (rows : List Event) : Prop where
  same : entries streamEventKind (s'.visible t) = entries streamEventKind rows
  ascending : (ofKind streamEventKind rows).Pairwise fun row row' => row.id < row'.id
  ascending' : (ofKind streamEventKind (s'.visible t)).Pairwise fun row row' => row.id < row'.id

/-- What holds of the stream events after a run. -/
structure FlushAgreement (table : Table) (labels : List Label) (s : State) : Prop where
  /-- A transaction that has flushed sees what it would see had it inserted its events one by one. -/
  flushed : ∀ t stamp, s.phases t = .flushed → ∃ s',
    s.atRest.insertOneByOne t stamp (pushed t labels) = some s' ∧ Leaves s' t (s.visible t)
  /-- What is committed is what one transaction would leave that inserts all the events, in the
      order of the commits. -/
  committed : ∀ t stamp, ∃ s',
    (start table).insertOneByOne t stamp (committedEvents labels) = some s' ∧
      Leaves s' t s.committed
  /-- No staged row is left behind by a flush, nor by a commit. -/
  not_staged : (∀ row ∈ s.committed, row.kind ≠ streamEventStagingKind) ∧
    ∀ t, s.phases t = .flushed → ∀ row ∈ own t s.pending, row.kind ≠ streamEventStagingKind
  /-- Staging and flushing leave the rows of other kinds as they are. -/
  untouched : ∀ op s' ids, s.step op = some (s', ids) → op.flushes = true →
    s'.committed = s.committed ∧
      (s'.pending.filter fun row => isOther row.2) = s.pending.filter fun row => isOther row.2
  /-- Identifiers are allocated under the lock. -/
  locked : ∀ op s' ids, s.step op = some (s', ids) → ids ≠ [] →
    s.orderLock = some op.txn ∧ s'.orderLock = some op.txn
  /-- Every stream event that is committed has an identifier that its transaction was allocated. -/
  written : ∀ row ∈ s.committed, row.kind = streamEventKind →
    row ∈ table.rows ∨ ∃ t ∈ commits labels, (t, row.id) ∈ allocated labels
  /-- The identifiers of two transactions do not interleave. -/
  together : ∀ a ∈ allocated labels, ∀ b ∈ allocated labels, ∀ c ∈ allocated labels,
    a.2 < b.2 → b.2 < c.2 → a.1 = c.1 → b.1 = a.1

theorem TableInv.atRest (h : TableInv s) : TableInv s.atRest :=
  h.dropped rfl (List.nil_sublist _) rfl

theorem atRest_visible (s : State) (t : TxnId) : s.atRest.visible t = s.committed :=
  List.append_nil _

theorem RunInv.flushed {table : Table} {labels : List Label} (h : RunInv table labels s)
    (hphase : s.phases t = .flushed) (stamp : ℤ) :
    ∃ s', s.atRest.insertOneByOne t stamp (pushed t labels) = some s' ∧
      Leaves s' t (s.visible t) := by
  obtain ⟨s', hs', htable, hentries⟩ :=
    @insertOneByOne_records s.atRest t stamp (pushed t labels) h.tableInv.atRest rfl
  have hat := (h.txn t).at_phase
  rw [hphase] at hat
  have hremaining : s.remaining t = [] := hat
  have hcontent := (h.txn t).content (by simp [hphase]) s.base fun _ => rfl
  rw [hremaining, recordAll_nil] at hcontent
  refine ⟨s', hs', ?_, h.tableInv.visible_ascending t, htable.visible_ascending t⟩
  rw [hentries, atRest_visible, visible_streamed]
  exact hcontent

theorem RunInv.one_by_one {table : Table} {labels : List Label} (h : RunInv table labels s)
    (t : TxnId) (stamp : ℤ) :
    ∃ s', (start table).insertOneByOne t stamp (committedEvents labels) = some s' ∧
      Leaves s' t s.committed := by
  obtain ⟨s', hs', htable, hentries⟩ := @insertOneByOne_records (start table) t stamp
    (committedEvents labels) (runInv_start table).tableInv rfl
  refine ⟨s', hs', ?_, h.tableInv.committed_ascending, htable.visible_ascending t⟩
  have hvisible : (start table).visible t = table.rows := List.append_nil _
  rw [hentries, hvisible]
  exact h.base.symm

/-- CORRECT (staged and direct flushing agree): in every run of transactions that collect, stage and
    flush stream events in any way, the stream events are those that inserting the events one by one
    would leave, nothing stays staged, rows of other kinds are not touched, and identifiers are
    allocated under the lock, so that those of two transactions never interleave. -/
theorem flush_agrees {table : Table} {labels : List Label} (h : Run Step (start table) labels s) :
    FlushAgreement table labels s := by
  have hinv : RunInv table labels s := runInv_of_run h
  have heffect : ∀ {op s' ids}, s.step op = some (s', ids) → Effect s op ids s' :=
    step_effect hinv.tableInv fun t => ⟨_, hinv.txn t⟩
  refine ⟨fun t stamp hphase => hinv.flushed hphase stamp, hinv.one_by_one,
    ⟨hinv.tableInv.not_staged, ?_⟩, ?_, ?_, hinv.committed, hinv.history.together⟩
  · intro t hphase row hrow hkind
    have hat := (hinv.txn t).at_phase
    rw [hphase] at hat
    have hstaged : ofKind streamEventStagingKind (own t s.pending) = [] :=
      List.map_eq_nil_iff.mp (List.append_eq_nil_iff.mp hat).1
    exact List.ne_nil_of_mem (mem_ofKind.mpr ⟨hrow, hkind⟩) hstaged
  · exact fun op s' ids hstep => (heffect hstep).untouched
  · exact fun op s' ids hstep => (heffect hstep).locked

/-- A table with one stream event. -/
def tableOfOne (key : String) : Table where
  rows := [⟨3, streamEventKind, some key, .null, none⟩]
  nextId := 4
  not_staged := by simp [kinds_ne]
  keyed := by simp [Keyed]
  ascending := List.pairwise_singleton _ _
  below := by simp

/-- One transaction stages its events in two parts, among them one twice and one that is there
    already, and the other one has to wait for its commit to insert its own directly. -/
def flushOps (event event' event'' : PendingStreamEvent) : List Op :=
  [.push 1 [event, event'], .stage 1 7, .stage 1 7, .push 2 [event', event''], .push 1 [event],
    .flushStream 2, .flushStream 1, .stage 1 8, .check 1, .lock 1, .insertStaged 1 9,
    .deleteStaged 1, .commit 1, .lock 2, .insert 2 9, .insert 2 9, .commit 2]

theorem flush_agrees_staged_direct :
    ∃ labels s, labels.map Prod.fst =
        flushOps ⟨4, "update", 10, "a", none, none⟩ ⟨4, "update", 11, "b", none, none⟩
          ⟨5, "delete", 12, "c", none, none⟩ ∧
      allocated labels = [(1, 7), (2, 10)] ∧ FlushAgreement (tableOfOne "b") labels s := by
  have hexec : (exec State.step (start (tableOfOne "b"))
      (flushOps ⟨4, "update", 10, "a", none, none⟩ ⟨4, "update", 11, "b", none, none⟩
        ⟨5, "delete", 12, "c", none, none⟩)).map (fun r => allocated r.2) =
      some [(1, 7), (2, 10)] := rfl
  obtain ⟨⟨s, labels⟩, hexec, hallocated⟩ := Option.map_eq_some_iff.mp hexec
  exact ⟨labels, s, exec_ops hexec, hallocated, flush_agrees (exec_run hexec)⟩

end Rustodon.Staging
