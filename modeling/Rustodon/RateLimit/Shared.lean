import Rustodon.RateLimit.Local

/-! @src web/rate_limit.rs | name:SharedRateLimiter | scheme:fixed-window | family:rate-limit

    The shared limiter keeps one row per key and bucket in `rustodon.rate_limit_windows`. A call runs
    in one transaction: it deletes the expired rows of its keys, reads the row of each key's current
    bucket, and upserts them all. Any error on the way rolls the transaction back. -/

namespace Rustodon.RateLimit

def i64Max : ℕ := 2 ^ 63 - 1

def i32Max : ℕ := 2 ^ 31 - 1

/-- The first second that `timestamptz` cannot hold (the year 294277). -/
def timestamptzEnd : ℕ := 9224318016000

/-- `i64::try_from` and the checked `i64` operations, on values that are not negative. -/
def i64TryFrom (n : ℕ) : Option ℕ := if n ≤ i64Max then some n else none

def i32TryFrom (n : ℕ) : Option ℕ := if n ≤ i32Max then some n else none

structure SharedRateLimitKey where
  windowKey : String
  limit : ℕ
  period : StdDuration
  bucket : ℕ
  expiresAt : ℕ

/-- A row of `rustodon.rate_limit_windows`; `expires_at` in seconds since the epoch. -/
structure WindowRow where
  windowKey : String
  bucket : ℕ
  attempts : ℕ
  expiresAt : ℕ
  deriving DecidableEq, Repr

abbrev Table := List WindowRow

/-- The `for` loop that fills `shared_keys`, on one key. -/
def sharedKey (now : ℕ) (k : LimitKey) : Option SharedRateLimitKey := do
  let periodSeconds ← i64TryFrom k.2.2.secs
  let bucket ← i64TryFrom (now / k.2.2.secs)
  let next ← i64TryFrom (bucket + 1)
  let expiresAt ← i64TryFrom (next * periodSeconds)
  let _ ← i32TryFrom k.2.1
  pure ⟨k.1, k.2.1, k.2.2, bucket, expiresAt⟩

/-- A `text` parameter: PostgreSQL takes any string without NUL. -/
def bindText (key : String) : Option Unit := if '\x00' ∈ key.toList then none else some ()

/-- `pg_advisory_xact_lock` on a key; waiting for the lock is not part of the result. -/
def advisoryLock (key : String) : Option Unit := bindText key

/-- `DELETE … WHERE window_key = $1 AND expires_at <= clock_timestamp()`. -/
def deleteExpired (now : ℕ) (table : Table) (key : String) : Table :=
  table.filter fun row => !(row.windowKey == key && decide (row.expiresAt ≤ now))

def WindowRow.isFor (key : String) (bucket : ℕ) (row : WindowRow) : Bool :=
  row.windowKey == key && row.bucket == bucket

/-- `SELECT attempts … WHERE window_key = $1 AND bucket = $2`, zero when there is no row. -/
def attemptsOf (table : Table) (key : String) (bucket : ℕ) : ℕ :=
  ((table.find? (WindowRow.isFor key bucket)).map WindowRow.attempts).getD 0

def toTimestamp (seconds : ℕ) : Option ℕ := if seconds < timestamptzEnd then some seconds else none

/-- `rate_limit_windows_key_check`. -/
def keyCheck (key : String) : Bool := decide (1 ≤ key.utf8ByteSize ∧ key.utf8ByteSize ≤ 255)

/-- The `ON CONFLICT (window_key, bucket) DO UPDATE` branch, on the row that is there. -/
def bumpRow (row : WindowRow) : Option WindowRow := do
  let attempts ← i32TryFrom (row.attempts + 1)
  pure { row with attempts := attempts }

/-- The upsert of one key. -/
def upsert (table : Table) (k : SharedRateLimitKey) : Option Table := do
  let expiresAt ← toTimestamp k.expiresAt
  guard (keyCheck k.windowKey)
  match table.find? (WindowRow.isFor k.windowKey k.bucket) with
  | some row =>
    let bumped ← bumpRow row
    pure (table.map fun r => if r.isFor k.windowKey k.bucket then bumped else r)
  | none => pure (table ++ [⟨k.windowKey, k.bucket, 1, expiresAt⟩])

/-- Whether the row of a key's bucket has no attempt left. -/
def spent (table : Table) (k : SharedRateLimitKey) : Bool :=
  decide (k.limit ≤ attemptsOf table k.windowKey k.bucket)

/-- `SharedRateLimiter::try_allow`, with the table after the call. The application and the database
    read the same clock `now`, in seconds. -/
def tryAllow (table : Table) (keys : List LimitKey) (now : ℕ) :
    Except RateLimitExceeded Unit × Table :=
  match keys with
  | [] => (.error ⟨0, .fromSecs 1⟩, table)
  | (_, limit, period) :: _ =>
    let fallback : RateLimitExceeded := ⟨limit, period⟩
    if keys.any fun k => k.2.1 == 0 || k.2.2.secs == 0 then (.error fallback, table)
    else
      match keys.mapM (sharedKey now) with
      | none => (.error fallback, table)
      | some sharedKeys =>
        match sharedKeys.mapM fun k => advisoryLock k.windowKey with
        | none => (.error fallback, table)
        | some _ =>
          let purged := sharedKeys.foldl (fun table k => deleteExpired now table k.windowKey) table
          match sharedKeys.find? (spent purged) with
          | some k => (.error ⟨k.limit, k.period⟩, table)
          | none =>
            match sharedKeys.foldlM upsert purged with
            | none => (.error fallback, table)
            | some committed => (.ok (), committed)

end Rustodon.RateLimit
