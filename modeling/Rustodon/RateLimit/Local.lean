import Rustodon.Schemes.FixedWindow
import Mathlib.Data.List.AList
import Mathlib.Data.List.Sort

/-! @src web/rate_limit.rs | name:AttemptLimiter | scheme:fixed-window | family:rate-limit

    The in-process limiter keeps one window per key and a heap of their expirations. A call samples
    the clock, purges what has expired, drops the windows of its own keys that are in another bucket,
    and then either rejects or charges every key. -/

namespace Rustodon.RateLimit

/-- `std::time::Duration`. -/
structure StdDuration where
  secs : ℕ
  nanos : ℕ
  deriving DecidableEq, Repr

def StdDuration.fromSecs (secs : ℕ) : StdDuration := ⟨secs, 0⟩

def u64Max : ℕ := 2 ^ 64 - 1

def saturatingAdd (a b : ℕ) : ℕ := min (a + b) u64Max

def saturatingMul (a b : ℕ) : ℕ := min (a * b) u64Max

def maxRateLimitWindows : ℕ := 65536

structure RateLimitExceeded where
  limit : ℕ
  period : StdDuration
  deriving DecidableEq, Repr

structure RateLimitWindow where
  bucket : ℕ
  attempts : ℕ
  expiresAt : ℕ
  deriving DecidableEq, Repr

/-- An entry of the expiration heap: when, which key, which bucket. -/
abbrev Expiration := ℕ × String × ℕ

/-- The `HashMap` of windows. -/
abbrev Windows := AList fun _ : String => RateLimitWindow

/-- The limiter's state; the heap is kept in ascending order, so that `peek` is its head. -/
structure AttemptLimiterState where
  windows : Windows
  expirations : List Expiration

/-- The order of `Reverse<(u64, String, u64)>` entries as the heap hands them out. -/
def Expiration.le (a b : Expiration) : Prop :=
  a.1 < b.1 ∨ a.1 = b.1 ∧ (a.2.1 < b.2.1 ∨ a.2.1 = b.2.1 ∧ a.2.2 ≤ b.2.2)

instance : DecidableRel Expiration.le := fun a b => by unfold Expiration.le; infer_instance

/-- One key of a call, with its limit and its period. -/
abbrev LimitKey := String × ℕ × StdDuration

def rateLimitBucket (now : ℕ) (period : StdDuration) : ℕ := now / period.secs

/-- When a bucket ends: `bucket.saturating_add(1).saturating_mul(period.as_secs())`. -/
def bucketEnd (bucket : ℕ) (period : StdDuration) : ℕ :=
  saturatingMul (saturatingAdd bucket 1) period.secs

/-- The loop of `AttemptLimiterState::purge_expired`, on the heap still to be looked at. -/
def purgeLoop (now : ℕ) : Windows → List Expiration → AttemptLimiterState
  | windows, [] => ⟨windows, []⟩
  | windows, (expiresAt, key, bucket) :: rest =>
    if now < expiresAt then ⟨windows, (expiresAt, key, bucket) :: rest⟩
    else if (windows.lookup key).any fun w => w.bucket == bucket && decide (w.expiresAt ≤ now) then
      purgeLoop now (windows.erase key) rest
    else purgeLoop now windows rest

def AttemptLimiterState.purgeExpired (state : AttemptLimiterState) (now : ℕ) :
    AttemptLimiterState :=
  purgeLoop now state.windows state.expirations

/-- Removes the window of a key when it belongs to another bucket than the call's. -/
def dropStale (now : ℕ) (windows : Windows) (k : LimitKey) : Windows :=
  if (windows.lookup k.1).any fun w => w.bucket != rateLimitBucket now k.2.2 then
    windows.erase k.1
  else windows

/-- Whether a key has no attempt left. -/
def exhausted (windows : Windows) (k : LimitKey) : Bool :=
  (windows.lookup k.1).any fun w => decide (k.2.1 ≤ w.attempts)

/-- Counts one attempt, opening a window and filing its expiration when there is none. -/
def countAttempt (now : ℕ) (state : AttemptLimiterState) (k : LimitKey) : AttemptLimiterState :=
  let bucket := rateLimitBucket now k.2.2
  let expiresAt := bucketEnd bucket k.2.2
  match state.windows.lookup k.1 with
  | some w => { state with windows := state.windows.insert k.1 { w with attempts := w.attempts + 1 } }
  | none =>
    ⟨state.windows.insert k.1 ⟨bucket, 1, expiresAt⟩,
      state.expirations.orderedInsert Expiration.le (expiresAt, k.1, bucket)⟩

/-- The guard before the lock: no keys at all, or a key without limit or period. -/
def malformed (keys : List LimitKey) : Bool :=
  keys.isEmpty || keys.any fun k => k.2.1 == 0 || k.2.2.secs == 0

/-- The state a call leaves once it has purged and dropped the stale windows of its keys. -/
def settled (state : AttemptLimiterState) (keys : List LimitKey) (now : ℕ) : AttemptLimiterState :=
  let purged := state.purgeExpired now
  { purged with windows := keys.foldl (dropStale now) purged.windows }

/-- `AttemptLimiter::try_allow_at`, with the state after the call. -/
def tryAllowAt (state : AttemptLimiterState) (keys : List LimitKey) (now : ℕ) :
    Except RateLimitExceeded Unit × AttemptLimiterState :=
  match keys with
  | [] => (.error ⟨0, .fromSecs 1⟩, state)
  | first :: _ =>
    if malformed keys then (.error ⟨0, .fromSecs 1⟩, state)
    else
      let state := settled state keys now
      let newKeys := (keys.filter fun k => (state.windows.lookup k.1).isNone).length
      if maxRateLimitWindows < state.windows.keys.length + newKeys then
        (.error ⟨first.2.1, first.2.2⟩, state)
      else
        match keys.find? (exhausted state.windows) with
        | some k => (.error ⟨k.2.1, k.2.2⟩, state)
        | none => (.ok (), keys.foldl (countAttempt now) state)

end Rustodon.RateLimit
