import Rustodon.RateLimit.Budget
import Rustodon.RateLimit.Shared
import Mathlib.Data.Finset.Card
import Mathlib.Data.List.Find
import Mathlib.Data.String.Basic

/-! @src web/rate_limit.rs | name:Both limiters | scheme:fixed-window | family:rate-limit

    With a clock that never goes back, the in-process limiter and the shared one answer every call
    alike. Both are compared with the log of the charges admitted so far: an open window, and the row
    of an open bucket, count the charges of the log. What has expired goes from the windows and the
    heap at every call, from the table only when the call commits. -/

namespace Rustodon.RateLimit
open Schemes.FixedWindow

def sharedStep (p : Policy) (table : Table) (c : Call) :
    Except RateLimitExceeded Unit × Table :=
  tryAllow table (p.request c.keys) c.now

def tableAfter (p : Policy) : Table → List Call → Table
  | table, [] => table
  | table, c :: rest => tableAfter p (sharedStep p table c).2 rest

/-- The keys that are live at a call: its own, and those an earlier successful call counted in a
    bucket that has not ended. -/
def liveKeys (p : Policy) (earlier : List Call) (c : Call) : Finset String :=
  ((earlier.flatMap fun c' => c'.keys.filter fun key =>
    decide (c.now < bucketEnd (p.bucket c' key) (p.period key))) ++ c.keys).toFinset

/-- The runs the two limiters are compared on. -/
structure Comparable (p : Policy) (calls : List Call) : Prop where
  policy : ∀ c ∈ calls, ∀ key ∈ c.keys, 0 < p.limit key ∧ p.limit key ≤ i32Max ∧
    0 < (p.period key).secs ∧ (p.period key).secs ≤ i64Max
  clock : calls.Pairwise fun a b => a.now ≤ b.now
  distinct : ∀ c ∈ calls, c.keys.Nodup
  live : ∀ pre c post, calls = pre ++ c :: post →
    (liveKeys p (accepted p fresh pre) c).card < maxRateLimitWindows

/-- A key the table can hold. -/
def StorableKey (key : String) : Prop := keyCheck key = true ∧ '\x00' ∉ key.toList

/-- The end of every bucket that is used fits a `timestamptz`. -/
def StorableExpiry (p : Policy) (c : Call) (key : String) : Prop :=
  (p.bucket c key + 1) * (p.period key).secs < timestamptzEnd

def Storable (p : Policy) (calls : List Call) : Prop :=
  ∀ c ∈ calls, ∀ key ∈ c.keys, StorableKey key ∧ StorableExpiry p c key

/-- No window and no heap entry of the state is past its expiry. -/
def NoneExpired (s : AttemptLimiterState) (now : ℕ) : Prop :=
  (∀ key w, s.windows.lookup key = some w → now < w.expiresAt) ∧ ∀ e ∈ s.expirations, now < e.1

/-- No row of the given keys is past its expiry. -/
def NoRowExpired (table : Table) (keys : List String) (now : ℕ) : Prop :=
  ∀ row ∈ table, row.windowKey ∈ keys → now < row.expiresAt

/-! ### The heap files every window -/

/-- The heap is in order and has an entry for every window. -/
structure Filed (s : AttemptLimiterState) : Prop where
  sorted : s.expirations.Pairwise Expiration.le
  filed : ∀ key w, s.windows.lookup key = some w → (w.expiresAt, key, w.bucket) ∈ s.expirations

instance : Std.Total Expiration.le where
  total a b := by
    simp only [Expiration.le]
    rcases lt_trichotomy a.1 b.1 with h | h | h
    · exact Or.inl (Or.inl h)
    · rcases lt_trichotomy a.2.1 b.2.1 with h' | h' | h'
      · exact Or.inl (Or.inr ⟨h, Or.inl h'⟩)
      · rcases Nat.le_total a.2.2 b.2.2 with h'' | h''
        · exact Or.inl (Or.inr ⟨h, Or.inr ⟨h', h''⟩⟩)
        · exact Or.inr (Or.inr ⟨h.symm, Or.inr ⟨h'.symm, h''⟩⟩)
      · exact Or.inr (Or.inr ⟨h.symm, Or.inl h'⟩)
    · exact Or.inr (Or.inl h)

instance : IsTrans Expiration Expiration.le where
  trans a b c hab hbc := by
    simp only [Expiration.le] at hab hbc ⊢
    rcases hab with hab | ⟨hab, hab'⟩
    · rcases hbc with hbc | ⟨hbc, -⟩ <;> exact Or.inl (by omega)
    · rcases hbc with hbc | ⟨hbc, hbc'⟩
      · exact Or.inl (by omega)
      · refine Or.inr ⟨hab.trans hbc, ?_⟩
        rcases hab' with hab' | ⟨hab', hle⟩
        · rcases hbc' with hbc' | ⟨hbc', -⟩
          · exact Or.inl (lt_trans hab' hbc')
          · exact Or.inl (hbc' ▸ hab')
        · rcases hbc' with hbc' | ⟨hbc', hle'⟩
          · exact Or.inl (hab' ▸ hbc')
          · exact Or.inr ⟨hab'.trans hbc', hle.trans hle'⟩

theorem Expiration.le_time {a b : Expiration} (h : Expiration.le a b) : a.1 ≤ b.1 := by
  rcases h with h | ⟨h, -⟩ <;> omega

theorem filed_fresh : Filed fresh :=
  ⟨List.Pairwise.nil, fun key w h => by simp [fresh] at h⟩

/-- Purging keeps the heap filing every window, and leaves only entries that are not due. -/
theorem filed_purgeLoop (now : ℕ) : ∀ (heap : List Expiration) (windows : Windows),
    Filed ⟨windows, heap⟩ → Filed (purgeLoop now windows heap) ∧
      ∀ e ∈ (purgeLoop now windows heap).expirations, now < e.1
  | [], windows, h => ⟨h, by simp [purgeLoop]⟩
  | (expiresAt, key, bucket) :: rest, windows, h => by
    obtain ⟨hhead, hrest⟩ := List.pairwise_cons.mp h.sorted
    rw [purgeLoop]
    split_ifs with hlater hmatch
    · refine ⟨h, fun e he => ?_⟩
      rcases List.mem_cons.mp he with rfl | he
      · exact hlater
      · exact lt_of_lt_of_le hlater (Expiration.le_time (hhead e he))
    · refine filed_purgeLoop now rest _ ⟨hrest, fun key' w hw => ?_⟩
      have hne : key' ≠ key := by rintro rfl; simp at hw
      have hmem := h.filed key' w (lookup_of_lookup_erase hw)
      refine (List.mem_cons.mp hmem).resolve_left fun heq => hne ?_
      exact (Prod.mk.inj (Prod.mk.inj heq).2).1
    · refine filed_purgeLoop now rest _ ⟨hrest, fun key' w hw => ?_⟩
      -- an entry that names the window as it stands would have purged it
      refine (List.mem_cons.mp (h.filed key' w hw)).resolve_left fun heq => hmatch ?_
      simp only [Prod.mk.injEq] at heq
      obtain ⟨hexp, rfl, hb⟩ := heq
      simp only [hw, Option.any_some, Bool.and_eq_true, beq_iff_eq, decide_eq_true_eq]
      exact ⟨hb, by omega⟩

theorem Filed.erase {s : AttemptLimiterState} (h : Filed s) (key : String) :
    Filed { s with windows := s.windows.erase key } :=
  ⟨h.sorted, fun key' w hw => h.filed key' w (lookup_of_lookup_erase hw)⟩

theorem filed_dropStale_all (now : ℕ) (heap : List Expiration) :
    ∀ (keys : List LimitKey) (windows : Windows), Filed ⟨windows, heap⟩ →
      Filed ⟨keys.foldl (dropStale now) windows, heap⟩
  | [], _, h => h
  | k :: rest, windows, h => by
    refine filed_dropStale_all now heap rest _ ?_
    rw [dropStale]
    split_ifs
    · exact h.erase k.1
    · exact h

/-- A window that is in the heap's order is not past its expiry when no entry is due. -/
theorem Filed.noneExpired {s : AttemptLimiterState} (h : Filed s) {now : ℕ}
    (hheap : ∀ e ∈ s.expirations, now < e.1) : NoneExpired s now :=
  ⟨fun key w hw => hheap _ (h.filed key w hw), hheap⟩

theorem filed_settled {s : AttemptLimiterState} (h : Filed s) (keys : List LimitKey) (now : ℕ) :
    Filed (settled s keys now) ∧ NoneExpired (settled s keys now) now := by
  obtain ⟨hfiled, hheap⟩ := filed_purgeLoop now s.expirations s.windows h
  have hset : Filed (settled s keys now) := filed_dropStale_all now _ keys _ hfiled
  exact ⟨hset, hset.noneExpired hheap⟩

/-- Counting an attempt keeps the heap filing every window and files nothing that is due. -/
theorem filed_countAttempt {s : AttemptLimiterState} {now : ℕ} {k : LimitKey} (h : Filed s)
    (hheap : ∀ e ∈ s.expirations, now < e.1) (hp : 0 < k.2.2.secs) (hnow : now < u64Max) :
    Filed (countAttempt now s k) ∧ ∀ e ∈ (countAttempt now s k).expirations, now < e.1 := by
  rw [countAttempt]
  cases hlook : s.windows.lookup k.1 with
  | some w =>
    refine ⟨⟨h.sorted, fun key w' hw' => ?_⟩, hheap⟩
    rcases eq_or_ne key k.1 with rfl | hne
    · simp only [AList.lookup_insert, Option.some.injEq] at hw'
      exact hw' ▸ h.filed _ w hlook
    · simp only [AList.lookup_insert_ne hne] at hw'
      exact h.filed key w' hw'
  | none =>
    refine ⟨⟨h.sorted.orderedInsert _ _, fun key w' hw' => ?_⟩, fun e he => ?_⟩
    · rw [List.mem_orderedInsert]
      rcases eq_or_ne key k.1 with rfl | hne
      · simp only [AList.lookup_insert, Option.some.injEq] at hw'
        exact Or.inl (hw' ▸ rfl)
      · simp only [AList.lookup_insert_ne hne] at hw'
        exact Or.inr (h.filed key w' hw')
    · rcases (List.mem_orderedInsert _).mp he with rfl | he
      · exact now_lt_bucketEnd hp hnow
      · exact hheap e he

theorem filed_countAttempt_all {now : ℕ} (hnow : now < u64Max) :
    ∀ (keys : List LimitKey) {s : AttemptLimiterState}, Filed s →
      (∀ e ∈ s.expirations, now < e.1) → (∀ k ∈ keys, 0 < k.2.2.secs) →
      Filed (keys.foldl (countAttempt now) s) ∧
        ∀ e ∈ (keys.foldl (countAttempt now) s).expirations, now < e.1
  | [], _, h, hheap, _ => ⟨h, hheap⟩
  | k :: rest, _, h, hheap, hp => by
    obtain ⟨hfiled, hheap'⟩ := filed_countAttempt h hheap (hp k (List.mem_cons_self ..)) hnow
    exact filed_countAttempt_all hnow rest hfiled hheap' fun k' hmem =>
      hp k' (List.mem_cons_of_mem _ hmem)

/-! ### The table tracks the charges -/

/-- When a bucket ends, without saturation. -/
def expiryOf (p : Policy) (key : String) (bucket : ℕ) : ℕ := (bucket + 1) * (p.period key).secs

/-- The rows count the charges of the log, and every charged bucket that is open has its row. -/
structure Stored (p : Policy) (table : Table) (log : List (Charge String)) (now : ℕ) : Prop where
  row : ∀ row ∈ table, row.expiresAt = expiryOf p row.windowKey row.bucket ∧
    row.attempts = log.count (row.windowKey, row.bucket)
  kept : ∀ key bucket, 0 < log.count (key, bucket) → now < expiryOf p key bucket →
    ∃ row ∈ table, row.windowKey = key ∧ row.bucket = bucket

variable {p : Policy} {table : Table} {log : List (Charge String)} {now : ℕ} {c : Call}

theorem stored_nil (p : Policy) (now : ℕ) : Stored p [] [] now :=
  ⟨by simp, fun key bucket h => by simp at h⟩

theorem Stored.later {now' : ℕ} (h : Stored p table log now) (hle : now ≤ now') :
    Stored p table log now' :=
  ⟨h.row, fun key bucket hc hopen => h.kept key bucket hc (lt_of_le_of_lt hle hopen)⟩

theorem isFor_iff {key : String} {bucket : ℕ} {row : WindowRow} :
    row.isFor key bucket = true ↔ row.windowKey = key ∧ row.bucket = bucket := by
  simp [WindowRow.isFor]

/-- The attempts read for an open bucket are its charges. -/
theorem Stored.attemptsOf (h : Stored p table log now) {key : String} {bucket : ℕ}
    (hopen : now < expiryOf p key bucket) :
    attemptsOf table key bucket = log.count (key, bucket) := by
  rw [RateLimit.attemptsOf]
  cases hfind : table.find? (WindowRow.isFor key bucket) with
  | some row =>
    obtain ⟨rfl, rfl⟩ := isFor_iff.mp (List.find?_some hfind)
    exact (h.row row (List.mem_of_find?_eq_some hfind)).2
  | none =>
    refine (Nat.eq_zero_of_not_pos fun hpos => ?_).symm
    obtain ⟨row, hmem, hkey, hb⟩ := h.kept key bucket hpos hopen
    exact List.find?_eq_none.mp hfind row hmem (isFor_iff.mpr ⟨hkey, hb⟩)

theorem Stored.deleteExpired (h : Stored p table log now) (key : String) :
    Stored p (deleteExpired now table key) log now := by
  refine ⟨fun row hmem => h.row row (List.mem_of_mem_filter hmem), fun key' bucket hc hopen => ?_⟩
  obtain ⟨row, hmem, rfl, rfl⟩ := h.kept key' bucket hc hopen
  refine ⟨row, List.mem_filter.mpr ⟨hmem, ?_⟩, rfl, rfl⟩
  rw [← (h.row row hmem).1] at hopen
  simp [hopen]

theorem stored_deleteExpired_all : ∀ (keys : List String) {table : Table},
    Stored p table log now → Stored p (keys.foldl (deleteExpired now) table) log now
  | [], _, h => h
  | key :: rest, _, h => stored_deleteExpired_all rest (h.deleteExpired key)

/-- Deleting the expired rows of some keys leaves none of them. -/
theorem noRowExpired_deleteExpired (now : ℕ) : ∀ (keys done : List String) (table : Table),
    NoRowExpired table done now →
    NoRowExpired (keys.foldl (deleteExpired now) table) (done ++ keys) now
  | [], done, table, h => by simpa using h
  | key :: rest, done, table, h => by
    have hstep : NoRowExpired (deleteExpired now table key) (done ++ [key]) now := by
      intro row hmem hkey
      obtain ⟨hmem, hkept⟩ := List.mem_filter.mp hmem
      rcases List.mem_append.mp hkey with hdone | hkey
      · exact h row hmem hdone
      · rw [List.mem_singleton] at hkey
        simpa [hkey] using hkept
    have hrest := noRowExpired_deleteExpired now rest (done ++ [key]) _ hstep
    simpa [List.append_assoc] using hrest

/-- The shared key of a call: the conversions of `sharedKey` succeed on it. -/
def sharedKeyOf (p : Policy) (c : Call) (key : String) : SharedRateLimitKey :=
  ⟨key, p.limit key, p.period key, p.bucket c key, expiryOf p key (p.bucket c key)⟩

theorem timestamptzEnd_le : timestamptzEnd ≤ i64Max := by decide

theorem sharedKey_eq {key : String} (hlimit : p.limit key ≤ i32Max)
    (hpos : 0 < (p.period key).secs) (hsecs : (p.period key).secs ≤ i64Max)
    (hexp : StorableExpiry p c key) :
    sharedKey c.now (key, p.limit key, p.period key) = some (sharedKeyOf p c key) := by
  have hend : expiryOf p key (p.bucket c key) ≤ i64Max := by
    have := timestamptzEnd_le
    rw [expiryOf]; rw [StorableExpiry] at hexp; omega
  have hnext : p.bucket c key + 1 ≤ i64Max :=
    le_trans (Nat.le_mul_of_pos_right _ hpos) hend
  have hb : c.now / (p.period key).secs = p.bucket c key := rfl
  simp only [sharedKey, i64TryFrom, i32TryFrom, hb, if_pos hsecs, if_pos hnext, if_pos hlimit,
    if_pos (show p.bucket c key ≤ i64Max by omega), Option.bind_eq_bind, Option.bind_some]
  rw [if_pos (by rw [expiryOf] at hend; exact hend)]
  rfl

theorem mapM_some {α β : Type*} {f : α → Option β} {g : α → β} : ∀ {l : List α},
    (∀ a ∈ l, f a = some (g a)) → l.mapM f = some (l.map g)
  | [], _ => rfl
  | a :: rest, h => by
    have ih := mapM_some fun b hb => h b (List.mem_cons_of_mem _ hb)
    simp [List.mapM_cons, h a (List.mem_cons_self ..), ih]

theorem mem_replaced {key : String} {bucket : ℕ} {row r : WindowRow}
    (h : r ∈ table.map fun r => if r.isFor key bucket then row else r) :
    r = row ∨ r ∈ table ∧ r.isFor key bucket = false := by
  obtain ⟨r', hr', rfl⟩ := List.mem_map.mp h
  cases hfor : r'.isFor key bucket with
  | true => exact Or.inl (if_pos rfl)
  | false => exact Or.inr ⟨by simpa using hr', by simpa using hfor⟩

theorem count_concat_other {key : String} {bucket : ℕ} {r : WindowRow}
    (h : r.isFor key bucket = false) :
    (log ++ [(key, bucket)]).count (r.windowKey, r.bucket) =
      log.count (r.windowKey, r.bucket) := by
  have hne : (key, bucket) ≠ (r.windowKey, r.bucket) := fun heq => by
    rw [isFor_iff.mpr ⟨(Prod.mk.inj heq).1.symm, (Prod.mk.inj heq).2.symm⟩] at h
    exact absurd h (by simp)
  simp [List.count_append, hne]

/-- A row that already counts its bucket's charges and one more may replace the row there was. -/
theorem Stored.replace {key : String} {bucket : ℕ} {row : WindowRow}
    (h : Stored p table log now) (hfind : ∃ r ∈ table, r.isFor key bucket = true)
    (hkey : row.windowKey = key) (hb : row.bucket = bucket)
    (he : row.expiresAt = expiryOf p key bucket)
    (ha : row.attempts = log.count (key, bucket) + 1) :
    Stored p (table.map fun r => if r.isFor key bucket then row else r) (log ++ [(key, bucket)])
      now := by
  refine ⟨fun r hr => ?_, fun key' bucket' hc hopen => ?_⟩
  · rcases mem_replaced hr with rfl | ⟨hr, hother⟩
    · rw [hkey, hb, count_concat_self, if_pos rfl]
      exact ⟨he, ha⟩
    · rw [count_concat_other hother]
      exact h.row r hr
  · by_cases hsame : key' = key ∧ bucket' = bucket
    · obtain ⟨r, hr, hfor⟩ := hfind
      refine ⟨row, List.mem_map.mpr ⟨r, hr, if_pos hfor⟩, hkey.trans hsame.1.symm, ?_⟩
      exact hb.trans hsame.2.symm
    · have hne : (key, bucket) ≠ (key', bucket') := fun heq =>
        hsame ⟨(Prod.mk.inj heq).1.symm, (Prod.mk.inj heq).2.symm⟩
      obtain ⟨r, hr, rfl, rfl⟩ :=
        h.kept key' bucket' (by simpa [List.count_append, hne] using hc) hopen
      exact ⟨r, List.mem_map.mpr ⟨r, hr, if_neg fun hfor => hsame (isFor_iff.mp hfor)⟩, rfl, rfl⟩

/-- The first attempt of a bucket may be appended. -/
theorem Stored.append {key : String} {bucket : ℕ} {row : WindowRow}
    (h : Stored p table log now) (hnone : table.find? (WindowRow.isFor key bucket) = none)
    (hkey : row.windowKey = key) (hb : row.bucket = bucket)
    (he : row.expiresAt = expiryOf p key bucket)
    (ha : row.attempts = log.count (key, bucket) + 1) :
    Stored p (table ++ [row]) (log ++ [(key, bucket)]) now := by
  refine ⟨fun r hr => ?_, fun key' bucket' hc hopen => ?_⟩
  · rcases List.mem_append.mp hr with hr | hr
    · rw [count_concat_other (by simpa using List.find?_eq_none.mp hnone r hr)]
      exact h.row r hr
    · obtain rfl := List.mem_singleton.mp hr
      rw [hkey, hb, count_concat_self, if_pos rfl]
      exact ⟨he, ha⟩
  · by_cases hsame : key' = key ∧ bucket' = bucket
    · refine ⟨row, List.mem_append_right _ (List.mem_singleton.mpr rfl), ?_, ?_⟩
      · exact hkey.trans hsame.1.symm
      · exact hb.trans hsame.2.symm
    · have hne : (key, bucket) ≠ (key', bucket') := fun heq =>
        hsame ⟨(Prod.mk.inj heq).1.symm, (Prod.mk.inj heq).2.symm⟩
      obtain ⟨r, hr, rfl, rfl⟩ :=
        h.kept key' bucket' (by simpa [List.count_append, hne] using hc) hopen
      exact ⟨r, List.mem_append_left _ hr, rfl, rfl⟩

/-- The upsert of a key with an attempt left adds its charge. -/
theorem Stored.upsert {key : String} (h : Stored p table log now)
    (hkey : StorableKey key) (hexp : StorableExpiry p c key) (hlimit : p.limit key ≤ i32Max)
    (hopen : now < expiryOf p key (p.bucket c key))
    (hroom : log.count (key, p.bucket c key) < p.limit key) :
    ∃ table', upsert table (sharedKeyOf p c key) = some table' ∧
      Stored p table' (log ++ [(key, p.bucket c key)]) now ∧
      (∀ keys, NoRowExpired table keys now → NoRowExpired table' keys now) := by
  have htime : toTimestamp (expiryOf p key (p.bucket c key)) =
      some (expiryOf p key (p.bucket c key)) := if_pos hexp
  simp only [RateLimit.upsert, sharedKeyOf, htime, hkey.1, guard_true, Option.pure_def,
    Option.bind_eq_bind, Option.bind_some]
  cases hfind : table.find? (WindowRow.isFor key (p.bucket c key)) with
  | some row =>
    have hmem := List.mem_of_find?_eq_some hfind
    have hfor := List.find?_some hfind
    obtain ⟨hrowKey, hrowB⟩ := isFor_iff.mp hfor
    obtain ⟨hrowE, hrowA⟩ := h.row row hmem
    rw [hrowKey, hrowB] at hrowE hrowA
    have hbump : bumpRow row = some { row with attempts := row.attempts + 1 } := by
      simp only [bumpRow, i32TryFrom]
      rw [if_pos (by omega)]
      rfl
    simp only [hbump, Option.bind_some]
    refine ⟨_, rfl, h.replace ⟨row, hmem, hfor⟩ hrowKey hrowB hrowE (by rw [← hrowA]), ?_⟩
    intro keys hnone r hr hin
    rcases mem_replaced hr with rfl | ⟨hr, -⟩
    · exact hopen.trans_eq hrowE.symm
    · exact hnone r hr hin
  | none =>
    have hzero : log.count (key, p.bucket c key) = 0 := by
      rw [← h.attemptsOf hopen, RateLimit.attemptsOf, hfind]; rfl
    refine ⟨_, rfl, h.append hfind rfl rfl rfl (by rw [hzero]), ?_⟩
    intro keys hnone r hr hin
    rcases List.mem_append.mp hr with hr | hr
    · exact hnone r hr hin
    · obtain rfl := List.mem_singleton.mp hr
      exact hopen

theorem stored_upsert_all : ∀ (keys : List String) {table : Table} {log : List (Charge String)},
    Stored p table log now → keys.Nodup →
    (∀ key ∈ keys, StorableKey key ∧ StorableExpiry p c key ∧ p.limit key ≤ i32Max ∧
      now < expiryOf p key (p.bucket c key) ∧ log.count (key, p.bucket c key) < p.limit key) →
    ∃ table', (keys.map (sharedKeyOf p c)).foldlM RateLimit.upsert table = some table' ∧
      Stored p table' (log ++ keys.map fun key => (key, p.bucket c key)) now ∧
      (∀ done, NoRowExpired table done now → NoRowExpired table' done now)
  | [], table, log, h, _, _ => ⟨table, rfl, by simpa using h, fun _ hnone => hnone⟩
  | key :: rest, table, log, h, hnodup, hkeys => by
    obtain ⟨hnotin, hnodup⟩ := List.nodup_cons.mp hnodup
    obtain ⟨hkey, hexp, hlimit, hopen, hroom⟩ := hkeys key (List.mem_cons_self ..)
    obtain ⟨table₁, hup, hstored, hnone⟩ := h.upsert hkey hexp hlimit hopen hroom
    obtain ⟨table', hrest, hstored', hnone'⟩ :=
      stored_upsert_all rest hstored hnodup fun key' hmem => by
        obtain ⟨h1, h2, h3, h4, h5⟩ := hkeys key' (List.mem_cons_of_mem _ hmem)
        have hne : key' ≠ key := fun heq => hnotin (heq ▸ hmem)
        exact ⟨h1, h2, h3, h4, by rwa [count_concat_ne log hne]⟩
    refine ⟨table', ?_, by simpa [List.append_assoc] using hstored',
      fun done hd => hnone' done (hnone done hd)⟩
    simp [List.foldlM_cons, hup, hrest]

/-! ### One call -/

variable {s : AttemptLimiterState} {served : List Call}

/-- Whether the charges of a log have used a key's limit up. -/
def usedUp (p : Policy) (log : List (Charge String)) (c : Call) (key : String) : Bool :=
  decide (p.limit key ≤ log.count (key, p.bucket c key))

/-- The policy's answer to a call, after the charges of a log. -/
def verdict (p : Policy) (log : List (Charge String)) (c : Call) : Except RateLimitExceeded Unit :=
  match c.keys.find? (usedUp p log c) with
  | some key => .error ⟨p.limit key, p.period key⟩
  | none => .ok ()

/-- The conditions of a comparable run on one call and one of its keys. -/
structure Usable (p : Policy) (c : Call) (key : String) : Prop where
  limit : 0 < p.limit key ∧ p.limit key ≤ i32Max
  secs : 0 < (p.period key).secs ∧ (p.period key).secs ≤ i64Max
  name : StorableKey key
  expiry : StorableExpiry p c key

theorem Usable.open {key : String} (h : Usable p c key) :
    c.now < expiryOf p key (p.bucket c key) := by
  rw [expiryOf, Nat.mul_comm]
  exact Nat.lt_mul_div_succ c.now h.secs.1

theorem Usable.clock {key : String} (h : Usable p c key) : c.now < u64Max := by
  have hopen := h.open
  have hexp := h.expiry
  have hend : timestamptzEnd ≤ u64Max := by decide
  rw [StorableExpiry] at hexp
  rw [expiryOf] at hopen
  omega

theorem locks_of_usable (hne : c.keys ≠ []) (h : ∀ key ∈ c.keys, Usable p c key) :
    p.locks c = true := by
  simp only [Policy.locks, malformed, Policy.request, Bool.not_eq_true', Bool.or_eq_false_iff,
    List.any_eq_false, List.mem_map, forall_exists_index, and_imp, List.isEmpty_eq_false_iff,
    ne_eq, List.map_eq_nil_iff]
  refine ⟨hne, ?_⟩
  rintro k key hkey rfl
  have hk := h key hkey
  have h1 := hk.limit.1
  have h2 := hk.secs.1
  simp only [Bool.or_eq_true, beq_iff_eq, not_or]
  omega

/-- Fewer live keys than the bound leave room for the windows a call opens. -/
theorem room {earlier : List Call} (h : Tracks p s.windows (chargesOf p earlier) served served)
    (hfiled : Filed s) (hnodup : c.keys.Nodup)
    (hlive : (liveKeys p earlier c).card < maxRateLimitWindows) :
    (settled s (p.request c.keys) c.now).windows.keys.length +
      ((p.request c.keys).filter fun k =>
        ((settled s (p.request c.keys) c.now).windows.lookup k.1).isNone).length ≤
      maxRateLimitWindows := by
  set after := settled s (p.request c.keys) c.now with hafter
  have htracks := tracks_settled h c
  have hnone := (filed_settled hfiled (p.request c.keys) c.now).2.1
  rw [← hafter] at htracks hnone
  have hnew : ((p.request c.keys).filter fun k => (after.windows.lookup k.1).isNone).length =
      (c.keys.filter fun key => (after.windows.lookup key).isNone).length := by
    simp only [Policy.request, List.filter_map, List.length_map, Function.comp_def]
  have hall : (after.windows.keys ++
      c.keys.filter fun key => (after.windows.lookup key).isNone).Nodup := by
    refine List.nodup_append.mpr ⟨after.windows.nodupKeys, hnodup.filter _, ?_⟩
    rintro key hin _ hmem rfl
    obtain ⟨w, hw⟩ := Option.isSome_iff_exists.mp (AList.lookup_isSome.mpr hin)
    simp [hw] at hmem
  rw [hnew, ← List.length_append, ← List.toFinset_card_of_nodup hall]
  refine le_of_lt (lt_of_le_of_lt (Finset.card_le_card fun key hmem => ?_) hlive)
  rw [List.mem_toFinset, List.mem_append] at hmem
  rw [liveKeys, List.mem_toFinset, List.mem_append]
  rcases hmem with hmem | hmem
  · -- a window counts a charge of an earlier call, in a bucket that has not ended
    obtain ⟨w, hw⟩ := Option.isSome_iff_exists.mp (AList.lookup_isSome.mpr hmem)
    obtain ⟨-, he, -, ha⟩ := htracks.window key w hw
    have hused := htracks.used key w hw
    rw [ha, List.count_pos_iff, chargesOf, List.mem_flatten] at hused
    obtain ⟨charges, hc, hin⟩ := hused
    obtain ⟨c', hc', rfl⟩ := List.mem_map.mp hc
    obtain ⟨hkey, hb⟩ := mem_charges.mp hin
    refine Or.inl (List.mem_flatMap.mpr ⟨c', hc', List.mem_filter.mpr ⟨hkey, ?_⟩⟩)
    rw [decide_eq_true_eq, hb, ← he]
    exact hnone key w hw
  · exact Or.inr (List.mem_of_mem_filter hmem)

/-- With room for its windows, a well-formed call is decided by its first exhausted key. -/
theorem step_of_room (hne : c.keys ≠ []) (hmal : malformed (p.request c.keys) = false)
    (hroom : (settled s (p.request c.keys) c.now).windows.keys.length +
      ((p.request c.keys).filter fun k =>
        ((settled s (p.request c.keys) c.now).windows.lookup k.1).isNone).length ≤
      maxRateLimitWindows) :
    step p s c = match (p.request c.keys).find?
        (exhausted (settled s (p.request c.keys) c.now).windows) with
      | some k => (.error ⟨k.2.1, k.2.2⟩, settled s (p.request c.keys) c.now)
      | none => (.ok (), (p.request c.keys).foldl (countAttempt c.now)
          (settled s (p.request c.keys) c.now)) := by
  obtain ⟨first, rest, hreq⟩ := List.exists_cons_of_ne_nil
    (show p.request c.keys ≠ [] by simpa [Policy.request] using hne)
  rw [hreq] at hmal hroom
  rw [step, hreq]
  simp only [tryAllowAt, hmal, Bool.false_eq_true, if_false]
  exact (if_neg (not_lt.mpr hroom)).trans rfl

/-- The in-process limiter gives the policy's answer, and keeps nothing that has expired. -/
theorem local_step {earlier : List Call}
    (h : Tracks p s.windows (chargesOf p earlier) served served) (hfiled : Filed s)
    (hopen : Open p served c) (hne : c.keys ≠ []) (husable : ∀ key ∈ c.keys, Usable p c key)
    (hnodup : c.keys.Nodup) (hlive : (liveKeys p earlier c).card < maxRateLimitWindows) :
    (step p s c).1 = verdict p (chargesOf p earlier) c ∧ Filed (step p s c).2 ∧
      NoneExpired (step p s c).2 c.now := by
  have hlocks := locks_of_usable hne husable
  have hset := tracks_settled h c
  obtain ⟨hfiledSet, hnone⟩ := filed_settled hfiled (p.request c.keys) c.now
  -- both searches look for the same key
  have hfind : (p.request c.keys).find?
      (exhausted (settled s (p.request c.keys) c.now).windows) =
      (c.keys.find? (usedUp p (chargesOf p earlier) c)).map
        fun key => (key, p.limit key, p.period key) := by
    rw [Policy.request, List.find?_map, ← Policy.request]
    refine congrArg _ (List.find?_congr fun key hkey => ?_)
    have hlost := not_lost_concat hkey (key_pos hlocks hkey).2 hopen.clock (hopen.kept key hkey)
    have hiff := exhausted_iff hset (key_pos hlocks hkey).1 (current_settled s c hkey) hlost
    exact Bool.eq_iff_iff.mpr (by simpa [usedUp] using hiff)
  rw [step_of_room hne (malformed_of_locks hlocks) (room h hfiled hnodup hlive), hfind, verdict]
  cases c.keys.find? (usedUp p (chargesOf p earlier) c) with
  | some key => exact ⟨rfl, hfiledSet, hnone⟩
  | none =>
    obtain ⟨hfiled', hheap⟩ := filed_countAttempt_all hopen.clock (p.request c.keys) hfiledSet
      hnone.2 fun k hk => by
        obtain ⟨key, hkey, rfl⟩ := List.mem_map.mp hk
        exact (key_pos hlocks hkey).2
    exact ⟨rfl, hfiled', hfiled'.noneExpired hheap⟩

/-- Past the guards of the shared limiter, the first key whose row is spent decides. -/
theorem sharedStep_eq {first : String} {rest : List String} (hkeys : c.keys = first :: rest)
    (husable : ∀ key ∈ c.keys, Usable p c key) :
    sharedStep p table c =
      match (c.keys.map (sharedKeyOf p c)).find?
        (spent (c.keys.foldl (deleteExpired c.now) table)) with
      | some k => (.error ⟨k.limit, k.period⟩, table)
      | none =>
        match (c.keys.map (sharedKeyOf p c)).foldlM upsert
          (c.keys.foldl (deleteExpired c.now) table) with
        | none => (.error ⟨p.limit first, p.period first⟩, table)
        | some committed => (.ok (), committed) := by
  have hne : c.keys ≠ [] := hkeys ▸ List.cons_ne_nil first rest
  have hzero : ((p.request c.keys).any fun k => k.2.1 == 0 || k.2.2.secs == 0) = false := by
    have hmal := malformed_of_locks (locks_of_usable hne husable)
    exact (Bool.or_eq_false_iff.mp hmal).2
  have hshared : (p.request c.keys).mapM (sharedKey c.now) =
      some (c.keys.map (sharedKeyOf p c)) := by
    rw [Policy.request, mapM_some (g := fun k => sharedKeyOf p c k.1), List.map_map]
    · rfl
    · intro k hk
      obtain ⟨key, hkey, rfl⟩ := List.mem_map.mp hk
      have hk := husable key hkey
      exact sharedKey_eq hk.limit.2 hk.secs.1 hk.secs.2 hk.expiry
  have hlock : (c.keys.map (sharedKeyOf p c)).mapM (fun k => advisoryLock k.windowKey) =
      some ((c.keys.map (sharedKeyOf p c)).map fun _ => ()) := by
    refine mapM_some fun k hk => ?_
    obtain ⟨key, hkey, rfl⟩ := List.mem_map.mp hk
    exact if_neg (husable key hkey).name.2
  have hpurged : (c.keys.map (sharedKeyOf p c)).foldl
      (fun table k => deleteExpired c.now table k.windowKey) table =
      c.keys.foldl (deleteExpired c.now) table := by
    rw [List.foldl_map]; rfl
  have hreq : p.request c.keys =
      (first, p.limit first, p.period first) :: p.request rest := by rw [hkeys]; rfl
  rw [← hpurged]
  rw [hreq] at hzero hshared
  rw [sharedStep, hreq]
  simp only [tryAllow, hzero, hshared, hlock, Bool.false_eq_true, if_false] <;> rfl

/-- The shared limiter gives the policy's answer; the table changes only when the call commits, and
    then holds no expired row of its keys. -/
theorem shared_step (h : Stored p table log c.now) (hne : c.keys ≠ [])
    (husable : ∀ key ∈ c.keys, Usable p c key) (hnodup : c.keys.Nodup) :
    (sharedStep p table c).1 = verdict p log c ∧
    ((verdict p log c).isOk = true →
      Stored p (sharedStep p table c).2 (log ++ p.charges c) c.now ∧
      NoRowExpired (sharedStep p table c).2 c.keys c.now) ∧
    ((verdict p log c).isOk = false → (sharedStep p table c).2 = table) := by
  obtain ⟨first, rest, hkeys⟩ := List.exists_cons_of_ne_nil hne
  have hstored := stored_deleteExpired_all c.keys h
  have hfind : (c.keys.map (sharedKeyOf p c)).find?
      (spent (c.keys.foldl (deleteExpired c.now) table)) =
      (c.keys.find? (usedUp p log c)).map (sharedKeyOf p c) := by
    rw [List.find?_map]
    refine congrArg _ (List.find?_congr fun key hkey => ?_)
    have hread := hstored.attemptsOf (husable key hkey).open
    simp only [Function.comp_def, spent, sharedKeyOf, hread, usedUp]
  rw [sharedStep_eq hkeys husable, hfind, verdict]
  cases hcase : c.keys.find? (usedUp p log c) with
  | some key => exact ⟨rfl, fun hok => absurd hok (by simp [Except.isOk, Except.toBool]), fun _ => rfl⟩
  | none =>
    obtain ⟨table', hup, hstored', hnone⟩ := stored_upsert_all (c := c) c.keys hstored hnodup
      fun key hkey =>
        have hk := husable key hkey
        ⟨hk.name, hk.expiry, hk.limit.2, hk.open, by
          simpa [usedUp] using List.find?_eq_none.mp hcase key hkey⟩
    simp only [Option.map_none, hup]
    refine ⟨trivial, fun _ => ⟨hstored', hnone _ ?_⟩, fun hno => absurd hno (by simp [Except.isOk, Except.toBool])⟩
    have hclean := noRowExpired_deleteExpired c.now c.keys [] table fun _ _ hin => by simp at hin
    simpa using hclean

/-! ### Whole runs -/

theorem stateAfter_concat (p : Policy) (c : Call) : ∀ (pre : List Call) (s : AttemptLimiterState),
    stateAfter p s (pre ++ [c]) = (step p (stateAfter p s pre) c).2
  | [], _ => rfl
  | _ :: rest, _ => stateAfter_concat p c rest _

theorem tableAfter_concat (p : Policy) (c : Call) : ∀ (pre : List Call) (table : Table),
    tableAfter p table (pre ++ [c]) = (sharedStep p (tableAfter p table pre) c).2
  | [], _ => rfl
  | _ :: rest, _ => tableAfter_concat p c rest _

theorem accepted_concat (p : Policy) (c : Call) : ∀ (pre : List Call) (s : AttemptLimiterState),
    accepted p s (pre ++ [c]) =
      accepted p s pre ++ if (step p (stateAfter p s pre) c).1.isOk then [c] else []
  | [], s => by cases hok : (step p s c).1.isOk <;> simp [accepted, stateAfter, hok]
  | c' :: rest, s => by
    have ih := accepted_concat p c rest (step p s c').2
    rw [List.cons_append, accepted, accepted, stateAfter, ih]
    split_ifs <;> simp

variable {calls : List Call}

/-- A clock that never goes back keeps a run in order. -/
theorem inOrder_of_clock (h : Comparable p calls) (hs : Storable p calls) : InOrder p calls := by
  have hclock : ∀ c ∈ calls, p.locks c = true → c.now < u64Max := by
    intro c hc hlocks
    rcases hkeys : c.keys with - | ⟨key, rest⟩
    · simp [Policy.locks, Policy.request, hkeys, malformed] at hlocks
    · have hmem : key ∈ c.keys := by simp [hkeys]
      obtain ⟨h1, h2, h3, h4⟩ := h.policy c hc key hmem
      obtain ⟨hkey, hexp⟩ := hs c hc key hmem
      exact Usable.clock ⟨⟨h1, h2⟩, ⟨h3, h4⟩, hkey, hexp⟩
  refine ⟨hclock, fun pre first mid last post heq key hfirst hlast hb c hmem hleaves => ?_⟩
  have hpair := h.clock.filter p.locks
  rw [heq] at hpair
  have htail := (List.pairwise_cons.mp (List.pairwise_append.mp hpair).2.1)
  have hlo : first.now ≤ c.now := htail.1 c (List.mem_append_left _ hmem)
  have hhi : c.now ≤ last.now := (List.pairwise_append.mp htail.2).2.2 c hmem last (by simp)
  have hin : last ∈ calls.filter p.locks := by rw [heq]; simp
  obtain ⟨hcalls, hlocks⟩ := List.mem_filter.mp hin
  rcases hleaves with hend | ⟨-, hne⟩
  · have hlt := now_lt_bucketEnd (h.policy last hcalls key hlast).2.2.1 (hclock last hcalls hlocks)
    exact absurd hend (not_le.mpr (lt_of_le_of_lt hhi hlt))
  · refine hne (le_antisymm (Nat.div_le_div_right hhi) ?_)
    rw [← hb]
    exact Nat.div_le_div_right hlo

theorem Comparable.usable (h : Comparable p calls) (hs : Storable p calls) (hmem : c ∈ calls)
    {key : String} (hkey : key ∈ c.keys) : Usable p c key := by
  obtain ⟨h1, h2, h3, h4⟩ := h.policy c hmem key hkey
  obtain ⟨hname, hexp⟩ := hs c hmem key hkey
  exact ⟨⟨h1, h2⟩, ⟨h3, h4⟩, hname, hexp⟩

/-- What both limiters do with the call at one point of a comparable run, given that the heap and
    the table are as they should be there. -/
theorem agree_at (h : Comparable p calls) (hs : Storable p calls) {pre post : List Call}
    (heq : calls = pre ++ c :: post) (hne : c.keys ≠ []) (hfiled : Filed (stateAfter p fresh pre))
    (hstored : Stored p (tableAfter p [] pre) (chargesOf p (accepted p fresh pre)) c.now) :
    (step p (stateAfter p fresh pre) c).1 = verdict p (chargesOf p (accepted p fresh pre)) c ∧
    (sharedStep p (tableAfter p [] pre) c).1 =
      verdict p (chargesOf p (accepted p fresh pre)) c ∧
    (Filed (step p (stateAfter p fresh pre) c).2 ∧
      NoneExpired (step p (stateAfter p fresh pre) c).2 c.now) ∧
    ((verdict p (chargesOf p (accepted p fresh pre)) c).isOk = true →
      Stored p (sharedStep p (tableAfter p [] pre) c).2
        (chargesOf p (accepted p fresh pre) ++ p.charges c) c.now ∧
      NoRowExpired (sharedStep p (tableAfter p [] pre) c).2 c.keys c.now) ∧
    ((verdict p (chargesOf p (accepted p fresh pre)) c).isOk = false →
      (sharedStep p (tableAfter p [] pre) c).2 = tableAfter p [] pre) := by
  have hmem : c ∈ calls := by simp [heq]
  have husable : ∀ key ∈ c.keys, Usable p c key := fun key hkey => h.usable hs hmem hkey
  obtain ⟨served, htracks, hrest⟩ := stateAfter_tracks pre (c :: post) fresh [] []
    (tracks_fresh p) (heq ▸ (inOrder_of_clock h hs).after_nil)
  have hlocks := locks_of_usable hne husable
  obtain ⟨hlocal, hfiled', hnone⟩ := local_step (by simpa using htracks) hfiled
    (hrest.open hlocks) hne husable (h.distinct c hmem) (h.live pre c post heq)
  obtain ⟨hshared, hok, herr⟩ := shared_step hstored hne husable (h.distinct c hmem)
  exact ⟨hlocal, hshared, ⟨hfiled', hnone⟩, hok, herr⟩

theorem step_nil (s : AttemptLimiterState) (table : Table) (hnil : c.keys = []) :
    step p s c = (.error ⟨0, .fromSecs 1⟩, s) ∧
      sharedStep p table c = (.error ⟨0, .fromSecs 1⟩, table) := by
  simp [step, sharedStep, tryAllowAt, tryAllow, Policy.request, hnil]

/-- Along a comparable run the heap files every window and the table counts every open charge. -/
theorem stored_run (h : Comparable p calls) (hs : Storable p calls) (pre : List Call) :
    ∀ rest, calls = pre ++ rest → Filed (stateAfter p fresh pre) ∧
      ∀ now, (∀ c ∈ pre, c.now ≤ now) →
        Stored p (tableAfter p [] pre) (chargesOf p (accepted p fresh pre)) now := by
  induction pre using List.reverseRecOn with
  | nil =>
    intro rest _
    exact ⟨filed_fresh, fun now _ => stored_nil p now⟩
  | append_singleton pre c ih =>
    intro rest heq
    rw [List.append_assoc, List.singleton_append] at heq
    obtain ⟨hfiled, hstored⟩ := ih (c :: rest) heq
    rw [stateAfter_concat, tableAfter_concat, accepted_concat]
    rcases eq_or_ne c.keys [] with hnil | hne
    · obtain ⟨hlocal, hshared⟩ := step_nil (p := p) (stateAfter p fresh pre) (tableAfter p [] pre) hnil
      rw [hlocal, hshared]
      refine ⟨hfiled, fun now hnow => ?_⟩
      have := hstored now fun c' hc' => hnow c' (List.mem_append_left _ hc')
      simpa [Except.isOk, Except.toBool] using this
    · have hpast : ∀ c' ∈ pre, c'.now ≤ c.now := fun c' hc' =>
        (List.pairwise_append.mp (heq ▸ h.clock)).2.2 c' hc' c (List.mem_cons_self ..)
      obtain ⟨hlocal, -, ⟨hfiled', -⟩, hok, herr⟩ :=
        agree_at h hs heq hne hfiled (hstored c.now hpast)
      refine ⟨hfiled', fun now hnow => ?_⟩
      rw [hlocal]
      have hlater : c.now ≤ now := hnow c (by simp)
      cases hv : (verdict p (chargesOf p (accepted p fresh pre)) c).isOk with
      | true =>
        have := (hok hv).1.later hlater
        simpa [chargesOf] using this
      | false =>
        rw [herr hv]
        have := hstored now fun c' hc' => hnow c' (List.mem_append_left _ hc')
        simpa using this

/-- CORRECT (agreement): at every call of a comparable run over storable keys the two limiters
    answer alike; the in-process one then keeps nothing that has expired, the table no expired row
    of the call's keys when the call succeeded and just what it held when it did not. -/
theorem limiters_agree (p : Policy) (calls : List Call) (h : Comparable p calls)
    (hs : Storable p calls) (pre : List Call) (c : Call) (post : List Call)
    (heq : calls = pre ++ c :: post) :
    (step p (stateAfter p fresh pre) c).1 = (sharedStep p (tableAfter p [] pre) c).1 ∧
    (c.keys ≠ [] → NoneExpired (step p (stateAfter p fresh pre) c).2 c.now) ∧
    ((sharedStep p (tableAfter p [] pre) c).1.isOk = true →
      NoRowExpired (sharedStep p (tableAfter p [] pre) c).2 c.keys c.now) ∧
    ((sharedStep p (tableAfter p [] pre) c).1.isOk = false →
      (sharedStep p (tableAfter p [] pre) c).2 = tableAfter p [] pre) := by
  rcases eq_or_ne c.keys [] with hnil | hne
  · obtain ⟨hlocal, hshared⟩ := step_nil (p := p) (stateAfter p fresh pre) (tableAfter p [] pre) hnil
    rw [hlocal, hshared]
    exact ⟨rfl, fun hne => absurd hnil hne, fun hok => absurd hok (by simp [Except.isOk, Except.toBool]),
      fun _ => rfl⟩
  · obtain ⟨hfiled, hstored⟩ := stored_run h hs pre (c :: post) heq
    have hpast : ∀ c' ∈ pre, c'.now ≤ c.now := fun c' hc' =>
      (List.pairwise_append.mp (heq ▸ h.clock)).2.2 c' hc' c (List.mem_cons_self ..)
    obtain ⟨hlocal, hshared, ⟨-, hnone⟩, hok, herr⟩ :=
      agree_at h hs heq hne hfiled (hstored c.now hpast)
    rw [hlocal, hshared]
    exact ⟨rfl, fun _ => hnone, fun hv => (hok hv).2, herr⟩

/-- In a run of one call only the call's keys are live. -/
theorem comparable_singleton {c : Call} (hnodup : c.keys.Nodup)
    (hlen : c.keys.length < maxRateLimitWindows)
    (hpolicy : ∀ key ∈ c.keys, 0 < p.limit key ∧ p.limit key ≤ i32Max ∧
      0 < (p.period key).secs ∧ (p.period key).secs ≤ i64Max) : Comparable p [c] := by
  refine ⟨by simpa using hpolicy, List.pairwise_singleton _ _, by simpa using hnodup, ?_⟩
  intro pre c' post heq
  rcases pre with - | ⟨c'', pre⟩
  · obtain ⟨rfl, -⟩ := List.cons.inj heq
    exact lt_of_le_of_lt (List.toFinset_card_le _) (by simpa [accepted] using hlen)
  · simp at heq

/-- A key used up in its minute, and another one whose minute is over. -/
def secondMinute : List Call := [⟨["a"], 0⟩, ⟨["b"], 60⟩, ⟨["a", "b"], 61⟩]

theorem secondMinute_comparable :
    Comparable oncePerMinute secondMinute ∧ Storable oncePerMinute secondMinute := by
  refine ⟨⟨by decide, by decide, by decide, fun pre c post heq => ?_⟩, ?_⟩
  · rcases pre with - | ⟨c₁, - | ⟨c₂, - | ⟨c₃, pre⟩⟩⟩ <;>
      simp only [secondMinute, List.nil_append, List.cons_append, List.cons.injEq] at heq
    · obtain ⟨rfl, -⟩ := heq; decide
    · obtain ⟨rfl, rfl, -⟩ := heq; decide
    · obtain ⟨rfl, rfl, rfl, -⟩ := heq; decide
    · simp at heq
  · simp only [Storable, secondMinute, StorableKey, StorableExpiry]; decide

theorem limiters_agree_secondMinute :
    (step oncePerMinute (stateAfter oncePerMinute fresh [⟨["a"], 0⟩, ⟨["b"], 60⟩])
        ⟨["a", "b"], 61⟩).1 =
      (sharedStep oncePerMinute (tableAfter oncePerMinute [] [⟨["a"], 0⟩, ⟨["b"], 60⟩])
        ⟨["a", "b"], 61⟩).1 :=
  (limiters_agree oncePerMinute secondMinute secondMinute_comparable.1 secondMinute_comparable.2
    [⟨["a"], 0⟩, ⟨["b"], 60⟩] ⟨["a", "b"], 61⟩ [] rfl).1

/-- The limiters part on the empty key, which the table does not take, and on a bucket that ends
    after the last `timestamptz`; and a rejected call rolls its deletions back, so that an expired
    row of one of its keys stays. -/
theorem limiters_part :
    ¬ (∀ (p : Policy) (calls : List Call), Comparable p calls →
      (∀ c ∈ calls, ∀ key ∈ c.keys, StorableExpiry p c key) →
      ∀ pre c post, calls = pre ++ c :: post →
        (step p (stateAfter p fresh pre) c).1.isOk =
          (sharedStep p (tableAfter p [] pre) c).1.isOk) ∧
    ¬ (∀ (p : Policy) (calls : List Call), Comparable p calls →
      (∀ c ∈ calls, ∀ key ∈ c.keys, StorableKey key) →
      ∀ pre c post, calls = pre ++ c :: post →
        (step p (stateAfter p fresh pre) c).1.isOk =
          (sharedStep p (tableAfter p [] pre) c).1.isOk) ∧
    ¬ (∀ (p : Policy) (calls : List Call), Comparable p calls → Storable p calls →
      ∀ pre c post, calls = pre ++ c :: post →
        NoRowExpired (sharedStep p (tableAfter p [] pre) c).2 c.keys c.now) := by
  refine ⟨fun h => ?_, fun h => ?_, fun h => ?_⟩
  · have hsame := h oncePerMinute [⟨[""], 60⟩] (comparable_singleton (by decide) (by decide) (by decide))
      (by simp only [StorableExpiry]; decide) [] ⟨[""], 60⟩ [] rfl
    exact absurd hsame (by decide)
  · have hsame := h ⟨fun _ => 1, fun _ => .fromSecs (2 ^ 62)⟩ [⟨["a"], 60⟩]
      (comparable_singleton (by decide) (by decide) (by decide))
      (by simp only [StorableKey]; decide) [] ⟨["a"], 60⟩ [] rfl
    exact absurd hsame (by decide)
  · have hnone := h oncePerMinute secondMinute secondMinute_comparable.1 secondMinute_comparable.2
      [⟨["a"], 0⟩, ⟨["b"], 60⟩] ⟨["a", "b"], 61⟩ [] rfl
    exact absurd (hnone ⟨"a", 0, 1, 60⟩ (by decide) (by decide)) (by decide)

end Rustodon.RateLimit
