import Rustodon.RateLimit.Local

/-! @src web/rate_limit.rs | name:AttemptLimiter budgets | scheme:fixed-window | family:rate-limit

    What the in-process limiter guarantees when the callers sampled their clocks before taking the
    lock, so that the samples need not be monotone. The windows are compared with the abstract
    fixed-window policy: as long as no bucket is left behind between two calls that count a key in
    it, the window of the key holds exactly the charges of that bucket. -/

namespace Rustodon.RateLimit
open Schemes.FixedWindow

/-- The limit and the period every key is always used with. -/
structure Policy where
  limit : String → ℕ
  period : String → StdDuration

/-- One call: its keys, and the clock value its caller sampled. -/
structure Call where
  keys : List String
  now : ℕ
  deriving DecidableEq, Repr

def Policy.request (p : Policy) (keys : List String) : List LimitKey :=
  keys.map fun key => (key, p.limit key, p.period key)

/-- The bucket of a key that a call counts it in. -/
def Policy.bucket (p : Policy) (c : Call) (key : String) : ℕ := rateLimitBucket c.now (p.period key)

/-- The charges of a call under the abstract policy. -/
def Policy.charges (p : Policy) (c : Call) : List (Charge String) :=
  c.keys.map fun key => (key, p.bucket c key)

/-- Whether a call gets past the guard and takes the lock. -/
def Policy.locks (p : Policy) (c : Call) : Bool := !malformed (p.request c.keys)

def step (p : Policy) (s : AttemptLimiterState) (c : Call) :
    Except RateLimitExceeded Unit × AttemptLimiterState :=
  tryAllowAt s (p.request c.keys) c.now

/-- The calls of a run that succeed. -/
def accepted (p : Policy) : AttemptLimiterState → List Call → List Call
  | _, [] => []
  | s, c :: rest =>
    if (step p s c).1.isOk then c :: accepted p (step p s c).2 rest
    else accepted p (step p s c).2 rest

def stateAfter (p : Policy) : AttemptLimiterState → List Call → AttemptLimiterState
  | s, [] => s
  | s, c :: rest => stateAfter p (step p s c).2 rest

/-- `AttemptLimiterState::default()`. -/
def fresh : AttemptLimiterState := ⟨∅, []⟩

/-- The successful calls of a run that counted `key` in `bucket`. -/
def counted (p : Policy) (calls : List Call) (key : String) (bucket : ℕ) : ℕ :=
  ((accepted p fresh calls).filter fun c => decide (key ∈ c.keys ∧ p.bucket c key = bucket)).length

/-- The attempt counter of a key in one bucket. -/
def attemptsAt (windows : Windows) (key : String) (bucket : ℕ) : ℕ :=
  match windows.lookup key with
  | some w => if w.bucket = bucket then w.attempts else 0
  | none => 0

/-- A call leaves a bucket of a key behind: it sampled a clock value past the bucket's end, or it
    counts the key in another bucket. -/
def Leaves (p : Policy) (c : Call) (key : String) (bucket : ℕ) : Prop :=
  bucketEnd bucket (p.period key) ≤ c.now ∨ key ∈ c.keys ∧ p.bucket c key ≠ bucket

instance (p : Policy) (c : Call) (key : String) (bucket : ℕ) : Decidable (Leaves p c key bucket) :=
  inferInstanceAs (Decidable (_ ∨ _))

/-- A run in order: no clock value is the last one of `u64`, and no call between two calls that
    count a key in the same bucket leaves that bucket behind. -/
structure InOrder (p : Policy) (calls : List Call) : Prop where
  clock : ∀ c ∈ calls, p.locks c = true → c.now < u64Max
  kept : ∀ pre first mid last post,
    calls.filter p.locks = pre ++ first :: (mid ++ last :: post) →
    ∀ key ∈ first.keys, key ∈ last.keys → p.bucket first key = p.bucket last key →
    ∀ c ∈ mid, ¬ Leaves p c key (p.bucket last key)

/-! ### Bucket arithmetic -/

/-- A clock value below the saturation point lies before the end of its own bucket. -/
theorem now_lt_bucketEnd {now : ℕ} {period : StdDuration} (hp : 0 < period.secs)
    (hnow : now < u64Max) : now < bucketEnd (rateLimitBucket now period) period := by
  have hdiv : now / period.secs ≤ now := Nat.div_le_self _ _
  have hlt : now < (now / period.secs + 1) * period.secs := by
    rw [Nat.mul_comm]; exact Nat.lt_mul_div_succ now hp
  have hadd : saturatingAdd (now / period.secs) 1 = now / period.secs + 1 := by
    rw [saturatingAdd]; omega
  rw [bucketEnd, rateLimitBucket, hadd, saturatingMul]
  exact lt_min hlt hnow

/-! ### The windows track the charges -/

/-- A bucket is lost when a call that counted its key in it was followed by one that left it. -/
def Lost (p : Policy) (served : List Call) (key : String) (bucket : ℕ) : Prop :=
  ∃ pre first mid, served = pre ++ first :: mid ∧ key ∈ first.keys ∧ p.bucket first key = bucket ∧
    ∃ c ∈ mid, Leaves p c key bucket

/-- The windows hold the charges of the log: a window was opened by a call and counts the charges
    of its bucket, and a charged bucket without a window is lost. -/
structure Tracks (p : Policy) (windows : Windows) (log : List (Charge String))
    (opened served : List Call) : Prop where
  window : ∀ key w, windows.lookup key = some w →
    0 < (p.period key).secs ∧ w.expiresAt = bucketEnd w.bucket (p.period key) ∧
      (∃ c ∈ opened, key ∈ c.keys ∧ p.bucket c key = w.bucket) ∧
      w.attempts = log.count (key, w.bucket)
  used : ∀ key w, windows.lookup key = some w → 0 < w.attempts
  kept : ∀ key bucket, 0 < log.count (key, bucket) →
    (∃ w, windows.lookup key = some w ∧ w.bucket = bucket) ∨ Lost p served key bucket

variable {p : Policy} {windows : Windows} {log : List (Charge String)}
  {opened served : List Call} {c : Call} {key : String}

theorem tracks_fresh (p : Policy) : Tracks p fresh.windows [] [] [] :=
  ⟨fun key w h => by simp [fresh] at h, fun key w h => by simp [fresh] at h,
    fun key bucket h => by simp at h⟩

theorem Lost.concat {bucket : ℕ} (h : Lost p served key bucket) (c : Call) :
    Lost p (served ++ [c]) key bucket := by
  obtain ⟨pre, first, mid, rfl, hkey, hb, c', hmem, hleaves⟩ := h
  exact ⟨pre, first, mid ++ [c], by simp, hkey, hb, c', List.mem_append_left _ hmem, hleaves⟩

/-- Leaving a bucket that a served call counted loses it. -/
theorem lost_of_leaves {bucket : ℕ}
    (hfirst : ∃ first ∈ served, key ∈ first.keys ∧ p.bucket first key = bucket)
    (h : Leaves p c key bucket) : Lost p (served ++ [c]) key bucket := by
  obtain ⟨first, hmem, hkey, hb⟩ := hfirst
  obtain ⟨pre, post, rfl⟩ := List.append_of_mem hmem
  exact ⟨pre, first, post ++ [c], by simp, hkey, hb, c, by simp, h⟩

/-- A bucket that the last call counts, and that was not lost before it, is not lost by it. -/
theorem not_lost_concat (hkey : key ∈ c.keys) (hp : 0 < (p.period key).secs)
    (hnow : c.now < u64Max) (h : ¬ Lost p served key (p.bucket c key)) :
    ¬ Lost p (served ++ [c]) key (p.bucket c key) := by
  rintro ⟨pre, first, mid, heq, hfirst, hb, c', hmem, hleaves⟩
  rcases List.eq_nil_or_concat mid with rfl | ⟨mid', last, rfl⟩
  · simp at hmem
  · rw [List.concat_eq_append, ← List.cons_append, ← List.append_assoc] at heq
    obtain ⟨rfl, hlast⟩ := List.append_inj' heq rfl
    obtain rfl : c = last := by simpa using hlast
    simp only [List.concat_eq_append, List.mem_append, List.mem_singleton] at hmem
    rcases hmem with hmem | rfl
    · exact h ⟨pre, first, mid', rfl, hfirst, hb, c', hmem, hleaves⟩
    · rcases hleaves with hend | ⟨-, hne⟩
      · exact absurd (now_lt_bucketEnd hp hnow) (not_lt.mpr hend)
      · exact hne rfl

theorem Tracks.mono_served (h : Tracks p windows log opened served) (c : Call) :
    Tracks p windows log opened (served ++ [c]) :=
  ⟨h.window, h.used, fun key bucket hc => (h.kept key bucket hc).imp_right fun hl => hl.concat c⟩

theorem Tracks.mono_opened (h : Tracks p windows log opened served) (c : Call) :
    Tracks p windows log (opened ++ [c]) served := by
  refine ⟨fun key w hw => ?_, h.used, h.kept⟩
  obtain ⟨hp, he, ⟨c', hmem, hc'⟩, ha⟩ := h.window key w hw
  exact ⟨hp, he, ⟨c', List.mem_append_left _ hmem, hc'⟩, ha⟩

theorem lookup_of_lookup_erase {key' : String} {w : RateLimitWindow}
    (hw : (windows.erase key).lookup key' = some w) : windows.lookup key' = some w := by
  rcases eq_or_ne key' key with rfl | hne
  · simp at hw
  · rwa [AList.lookup_erase_ne hne] at hw

/-- A window whose bucket is lost may be dropped. -/
theorem Tracks.erase (h : Tracks p windows log opened served)
    (hlost : ∀ w, windows.lookup key = some w → Lost p served key w.bucket) :
    Tracks p (windows.erase key) log opened served := by
  refine ⟨fun key' w hw => ?_, fun key' w hw => ?_, fun key' bucket hc => ?_⟩
  · exact h.window key' w (lookup_of_lookup_erase hw)
  · exact h.used key' w (lookup_of_lookup_erase hw)
  · rcases h.kept key' bucket hc with ⟨w, hw, rfl⟩ | hl
    · rcases eq_or_ne key' key with rfl | hne
      · exact Or.inr (hlost w hw)
      · exact Or.inl ⟨w, by rwa [AList.lookup_erase_ne hne], rfl⟩
    · exact Or.inr hl

theorem tracks_purgeLoop : ∀ (heap : List Expiration) {windows : Windows},
    Tracks p windows log served (served ++ [c]) →
    Tracks p (purgeLoop c.now windows heap).windows log served (served ++ [c])
  | [], _, h => h
  | (expiresAt, key, bucket) :: rest, windows, h => by
    rw [purgeLoop]
    split_ifs with hlater hmatch
    · exact h
    · refine tracks_purgeLoop rest (h.erase fun w hw => ?_)
      obtain ⟨-, he, hopened, -⟩ := h.window key w hw
      simp only [hw, Option.any_some, Bool.and_eq_true, decide_eq_true_eq] at hmatch
      exact lost_of_leaves hopened (Or.inl (he ▸ hmatch.2))
    · exact tracks_purgeLoop rest h

/-- The window of a key, if there is one, is in the bucket that the call counts the key in. -/
def Current (p : Policy) (windows : Windows) (c : Call) (key : String) : Prop :=
  ∀ w, windows.lookup key = some w → w.bucket = p.bucket c key

theorem current_dropStale_self (p : Policy) (windows : Windows) (c : Call) (key : String) :
    Current p (dropStale c.now windows (key, p.limit key, p.period key)) c key := by
  intro w hw
  rw [dropStale] at hw
  split_ifs at hw with hstale
  · simp at hw
  · simpa [hw, Policy.bucket] using hstale

theorem current_dropStale (h : Current p windows c key) (k : LimitKey) :
    Current p (dropStale c.now windows k) c key := by
  intro w hw
  rw [dropStale] at hw
  split_ifs at hw
  · rcases eq_or_ne key k.1 with rfl | hne
    · simp at hw
    · exact h w (by rwa [AList.lookup_erase_ne hne] at hw)
  · exact h w hw

theorem Tracks.dropStale (h : Tracks p windows log served (served ++ [c])) (hkey : key ∈ c.keys) :
    Tracks p (dropStale c.now windows (key, p.limit key, p.period key)) log served
      (served ++ [c]) := by
  rw [RateLimit.dropStale]
  split_ifs with hstale
  · refine h.erase fun w hw => ?_
    obtain ⟨-, -, hopened, -⟩ := h.window key w hw
    have hne : w.bucket ≠ p.bucket c key := by simpa [hw, Policy.bucket] using hstale
    exact lost_of_leaves hopened (Or.inr ⟨hkey, hne.symm⟩)
  · exact h

theorem tracks_dropStale_all : ∀ (keys : List String) {windows : Windows},
    Tracks p windows log served (served ++ [c]) → (∀ key ∈ keys, key ∈ c.keys) →
    Tracks p ((p.request keys).foldl (dropStale c.now) windows) log served (served ++ [c])
  | [], _, h, _ => h
  | key :: rest, _, h, hsub =>
    tracks_dropStale_all rest (h.dropStale (hsub key (List.mem_cons_self ..)))
      fun key' hmem => hsub key' (List.mem_cons_of_mem _ hmem)

theorem current_dropStale_all : ∀ (keys : List String) {windows : Windows} {key : String},
    (key ∈ keys ∨ Current p windows c key) →
    Current p ((p.request keys).foldl (dropStale c.now) windows) c key
  | [], _, _, h => h.resolve_left (by simp)
  | key' :: rest, windows, key, h => by
    refine current_dropStale_all rest ?_
    rcases h with hmem | hcur
    · rcases List.mem_cons.mp hmem with rfl | hrest
      · exact Or.inr (current_dropStale_self p windows c key)
      · exact Or.inl hrest
    · exact Or.inr (current_dropStale hcur _)

theorem count_concat_self (log : List (Charge String)) (key : String) (bucket bucket' : ℕ) :
    (log ++ [(key, bucket)]).count (key, bucket') =
      log.count (key, bucket') + if bucket = bucket' then 1 else 0 := by
  simp [List.count_append, List.count_singleton]

theorem count_concat_ne (log : List (Charge String)) {key key' : String} (hne : key' ≠ key)
    (bucket bucket' : ℕ) :
    (log ++ [(key, bucket)]).count (key', bucket') = log.count (key', bucket') := by
  have hpair : (key, bucket) ≠ (key', bucket') := fun heq => hne (Prod.mk.inj heq).1.symm
  simp [List.count_append, hpair]

/-- Filing a window that counts one charge more than the log does tracks that charge. -/
theorem Tracks.insert (h : Tracks p windows log opened served) (hmem : c ∈ opened)
    (hkey : key ∈ c.keys) (hp : 0 < (p.period key).secs) (hcur : Current p windows c key)
    {w : RateLimitWindow} (hb : w.bucket = p.bucket c key)
    (he : w.expiresAt = bucketEnd w.bucket (p.period key))
    (ha : w.attempts = log.count (key, w.bucket) + 1) :
    Tracks p (windows.insert key w) (log ++ [(key, w.bucket)]) opened served := by
  refine ⟨fun key' w' hw' => ?_, fun key' w' hw' => ?_, fun key' bucket' hc => ?_⟩
  · rcases eq_or_ne key' key with rfl | hne
    · rw [AList.lookup_insert] at hw'
      obtain rfl := Option.some.inj hw'
      exact ⟨hp, he, ⟨c, hmem, hkey, hb.symm⟩, by rw [ha, count_concat_self, if_pos rfl]⟩
    · rw [AList.lookup_insert_ne hne] at hw'
      rw [count_concat_ne log hne]
      exact h.window key' w' hw'
  · rcases eq_or_ne key' key with rfl | hne
    · rw [AList.lookup_insert] at hw'
      obtain rfl := Option.some.inj hw'
      omega
    · rw [AList.lookup_insert_ne hne] at hw'
      exact h.used key' w' hw'
  · rcases eq_or_ne key' key with rfl | hne
    · rcases eq_or_ne w.bucket bucket' with hb' | hb'
      · exact Or.inl ⟨w, AList.lookup_insert _, hb'⟩
      · rw [count_concat_self, if_neg hb', add_zero] at hc
        rcases h.kept key' bucket' hc with ⟨w', hw', rfl⟩ | hl
        · exact absurd (hb.trans (hcur w' hw').symm) hb'
        · exact Or.inr hl
    · rw [count_concat_ne log hne] at hc
      rw [AList.lookup_insert_ne hne]
      exact h.kept key' bucket' hc

/-- A bucket that is not lost and has no window has not been charged. -/
theorem Tracks.count_eq_zero (h : Tracks p windows log opened served) {bucket : ℕ}
    (hnone : windows.lookup key = none) (hopen : ¬ Lost p served key bucket) :
    log.count (key, bucket) = 0 := by
  by_contra hne
  rcases h.kept key bucket (Nat.pos_of_ne_zero hne) with ⟨w, hw, -⟩ | hl
  · rw [hnone] at hw; exact absurd hw (by simp)
  · exact hopen hl

/-- Counting an attempt of a key whose bucket is not lost adds its charge to the log. -/
theorem Tracks.countAttempt {s : AttemptLimiterState} (h : Tracks p s.windows log opened served)
    (hmem : c ∈ opened) (hkey : key ∈ c.keys) (hp : 0 < (p.period key).secs)
    (hcur : Current p s.windows c key) (hopen : ¬ Lost p served key (p.bucket c key)) :
    Tracks p (countAttempt c.now s (key, p.limit key, p.period key)).windows
      (log ++ [(key, p.bucket c key)]) opened served := by
  rw [RateLimit.countAttempt]
  cases hlook : s.windows.lookup key with
  | some w =>
    obtain ⟨-, he, -, ha⟩ := h.window key w hlook
    have hb : w.bucket = p.bucket c key := hcur w hlook
    rw [← hb]
    exact h.insert (w := { w with attempts := w.attempts + 1 }) hmem hkey hp hcur hb he (by rw [ha])
  | none =>
    have hzero := h.count_eq_zero hlook hopen
    exact h.insert (w := ⟨p.bucket c key, 1, _⟩) hmem hkey hp hcur rfl rfl (by rw [hzero])

theorem lookup_countAttempt_ne (now : ℕ) (s : AttemptLimiterState) (k : LimitKey)
    (hne : key ≠ k.1) : (countAttempt now s k).windows.lookup key = s.windows.lookup key := by
  rw [RateLimit.countAttempt]
  cases s.windows.lookup k.1 <;> exact AList.lookup_insert_ne hne

theorem current_countAttempt {s : AttemptLimiterState} (hcur : Current p s.windows c key)
    (key' : String) :
    Current p (countAttempt c.now s (key', p.limit key', p.period key')).windows c key := by
  intro w hw
  rcases eq_or_ne key key' with rfl | hne
  · rw [RateLimit.countAttempt] at hw
    cases hlook : s.windows.lookup key with
    | some w' =>
      simp only [hlook, AList.lookup_insert, Option.some.injEq] at hw
      exact hw ▸ hcur w' hlook
    | none =>
      simp only [hlook, AList.lookup_insert, Option.some.injEq] at hw
      exact hw ▸ rfl
  · rw [lookup_countAttempt_ne c.now s _ hne] at hw
    exact hcur w hw

theorem tracks_countAttempt_all : ∀ (keys : List String) {s : AttemptLimiterState}
    {log : List (Charge String)}, Tracks p s.windows log opened served → c ∈ opened →
    (∀ key ∈ keys, key ∈ c.keys ∧ 0 < (p.period key).secs ∧ Current p s.windows c key ∧
      ¬ Lost p served key (p.bucket c key)) →
    Tracks p ((p.request keys).foldl (countAttempt c.now) s).windows
      (log ++ keys.map fun key => (key, p.bucket c key)) opened served
  | [], _, _, h, _, _ => by simpa [Policy.request] using h
  | key :: rest, s, log, h, hmem, hkeys => by
    obtain ⟨hkey, hp, hcur, hopen⟩ := hkeys key (List.mem_cons_self ..)
    have hone := h.countAttempt hmem hkey hp hcur hopen
    have hrest := tracks_countAttempt_all rest hone hmem fun key' hmem' =>
      have hkey' := hkeys key' (List.mem_cons_of_mem _ hmem')
      ⟨hkey'.1, hkey'.2.1, current_countAttempt hkey'.2.2.1 key, hkey'.2.2.2⟩
    simpa [Policy.request, List.append_assoc] using hrest

/-! ### One call -/

/-- The buckets a call counts its keys in are not lost when it is served. -/
structure Open (p : Policy) (served : List Call) (c : Call) : Prop where
  clock : c.now < u64Max
  kept : ∀ key ∈ c.keys, ¬ Lost p served key (p.bucket c key)

theorem malformed_of_locks (hlocks : p.locks c = true) : malformed (p.request c.keys) = false := by
  simpa [Policy.locks] using hlocks

/-- Past the guard every key of a call has a limit and a period. -/
theorem key_pos (hlocks : p.locks c = true) (hmem : key ∈ c.keys) :
    0 < p.limit key ∧ 0 < (p.period key).secs := by
  have hmal := malformed_of_locks hlocks
  simp only [malformed, Bool.or_eq_false_iff, List.any_eq_false, Policy.request,
    List.mem_map] at hmal
  have := hmal.2 _ ⟨key, hmem, rfl⟩
  simp only [Bool.or_eq_true, beq_iff_eq, not_or] at this
  exact ⟨Nat.pos_of_ne_zero this.1, Nat.pos_of_ne_zero this.2⟩

theorem tracks_settled {s : AttemptLimiterState} (h : Tracks p s.windows log served served)
    (c : Call) :
    Tracks p (settled s (p.request c.keys) c.now).windows log served (served ++ [c]) :=
  tracks_dropStale_all c.keys (tracks_purgeLoop s.expirations (h.mono_served c)) fun _ hmem => hmem

theorem current_settled (s : AttemptLimiterState) (c : Call) (hmem : key ∈ c.keys) :
    Current p (settled s (p.request c.keys) c.now).windows c key :=
  current_dropStale_all c.keys (Or.inl hmem)

/-- A key whose bucket is not lost is exhausted exactly when its charges have used its limit up. -/
theorem exhausted_iff (h : Tracks p windows log opened served) (hlimit : 0 < p.limit key)
    (hcur : Current p windows c key) (hopen : ¬ Lost p served key (p.bucket c key)) :
    exhausted windows (key, p.limit key, p.period key) = true ↔
      p.limit key ≤ log.count (key, p.bucket c key) := by
  rw [exhausted]
  cases hlook : windows.lookup key with
  | some w =>
    obtain ⟨-, -, -, ha⟩ := h.window key w hlook
    simp [ha, hcur w hlook]
  | none =>
    rw [h.count_eq_zero hlook hopen]
    simp only [Option.any_none, Bool.false_eq_true, false_iff, not_le]
    exact hlimit

/-- What a call past the guard does: it either rejects, leaving the settled state, or finds no
    exhausted key and counts every key. -/
theorem tryAllowAt_cases (s : AttemptLimiterState) {keys : List LimitKey} (now : ℕ)
    (hmal : malformed keys = false) :
    (∃ e, tryAllowAt s keys now = (.error e, settled s keys now)) ∨
    (tryAllowAt s keys now = (.ok (), keys.foldl (countAttempt now) (settled s keys now)) ∧
      ∀ k ∈ keys, exhausted (settled s keys now).windows k = false) := by
  cases keys with
  | nil => simp [malformed] at hmal
  | cons first rest =>
    simp only [tryAllowAt, hmal, Bool.false_eq_true, if_false]
    split_ifs
    · exact Or.inl ⟨_, rfl⟩
    · cases hfind : (first :: rest).find?
        (exhausted (settled s (first :: rest) now).windows) with
      | some k => exact Or.inl ⟨_, rfl⟩
      | none =>
        refine Or.inr ⟨rfl, fun k hmem => ?_⟩
        simpa using List.find?_eq_none.mp hfind k hmem

/-- A call past the guard that succeeds was within the policy and is tracked. -/
theorem step_ok {s : AttemptLimiterState} (h : Tracks p s.windows log served served)
    (hlocks : p.locks c = true) (hopen : Open p served c) (hok : (step p s c).1.isOk = true) :
    admits p.limit log (p.charges c) = true ∧
      Tracks p (step p s c).2.windows (log ++ p.charges c) (served ++ [c]) (served ++ [c]) := by
  have hset := tracks_settled h c
  have hkept : ∀ key ∈ c.keys, ¬ Lost p (served ++ [c]) key (p.bucket c key) := fun key hkey =>
    not_lost_concat hkey (key_pos hlocks hkey).2 hopen.clock (hopen.kept key hkey)
  rw [step] at hok ⊢
  rcases tryAllowAt_cases s c.now (malformed_of_locks hlocks) with ⟨e, heq⟩ | ⟨heq, hroom⟩
  · rw [heq] at hok; exact absurd hok (by simp [Except.isOk, Except.toBool])
  · refine ⟨(admits_iff ..).mpr fun charge hmem => ?_, ?_⟩
    · obtain ⟨key, hkey, rfl⟩ := List.mem_map.mp hmem
      have hiff := exhausted_iff hset (key_pos hlocks hkey).1 (current_settled s c hkey)
        (hkept key hkey)
      have hfree := hroom (key, p.limit key, p.period key) (List.mem_map.mpr ⟨key, hkey, rfl⟩)
      exact not_le.mp fun hle => by rw [hiff.mpr hle] at hfree; exact absurd hfree (by simp)
    · rw [heq]
      exact tracks_countAttempt_all c.keys (hset.mono_opened c) (by simp) fun key hkey =>
        ⟨hkey, (key_pos hlocks hkey).2, current_settled s c hkey, hkept key hkey⟩

theorem step_rejected_state {s : AttemptLimiterState} (hlocks : p.locks c = true)
    (hno : (step p s c).1.isOk = false) :
    (step p s c).2 = settled s (p.request c.keys) c.now := by
  rw [step] at hno ⊢
  rcases tryAllowAt_cases s c.now (malformed_of_locks hlocks) with ⟨e, heq⟩ | ⟨heq, -⟩
  · rw [heq]
  · rw [heq] at hno; exact absurd hno (by simp [Except.isOk, Except.toBool])

/-- A call past the guard that is rejected leaves the charges tracked as they were. -/
theorem step_rejected {s : AttemptLimiterState} (h : Tracks p s.windows log served served)
    (hlocks : p.locks c = true) (hno : (step p s c).1.isOk = false) :
    Tracks p (step p s c).2.windows log (served ++ [c]) (served ++ [c]) :=
  step_rejected_state hlocks hno ▸ (tracks_settled h c).mono_opened c

/-- A call the guard turns away changes nothing. -/
theorem step_malformed (s : AttemptLimiterState) (hlocks : p.locks c = false) :
    (step p s c).1.isOk = false ∧ (step p s c).2 = s := by
  have hmal : malformed (p.request c.keys) = true := by simpa [Policy.locks] using hlocks
  rw [step]
  cases hreq : p.request c.keys with
  | nil => exact ⟨rfl, rfl⟩
  | cons first rest =>
    rw [hreq] at hmal
    simp only [tryAllowAt, hmal, if_true]
    exact ⟨rfl, trivial⟩

/-! ### Counters of the current bucket -/

theorem attemptsAt_congr {windows' : Windows} {bucket : ℕ}
    (h : windows.lookup key = windows'.lookup key) :
    attemptsAt windows key bucket = attemptsAt windows' key bucket := by
  rw [attemptsAt, attemptsAt, h]

/-- Purging leaves the counter of a bucket alone that has not expired. -/
theorem attemptsAt_purgeLoop {now bucket : ℕ} : ∀ (heap : List Expiration) {windows : Windows},
    (∀ w, windows.lookup key = some w → w.bucket = bucket → now < w.expiresAt) →
    attemptsAt (purgeLoop now windows heap).windows key bucket = attemptsAt windows key bucket
  | [], _, _ => rfl
  | (expiresAt, key', _) :: rest, windows, hlive => by
    rw [purgeLoop]
    split_ifs with hlater hmatch
    · rfl
    · rcases eq_or_ne key key' with rfl | hne
      · -- the window that goes is expired, so it is not in the bucket
        have hzero : attemptsAt windows key bucket = 0 := by
          rw [attemptsAt]
          cases hlook : windows.lookup key with
          | none => rfl
          | some w =>
            simp only [hlook, Option.any_some, Bool.and_eq_true, decide_eq_true_eq] at hmatch
            exact if_neg fun hb => absurd (hlive w hlook hb) (not_lt.mpr hmatch.2)
        rw [attemptsAt_purgeLoop rest (by simp), hzero]
        simp [attemptsAt]
      · have hsame := AList.lookup_erase_ne (s := windows) hne
        rw [attemptsAt_purgeLoop rest (by rwa [hsame]), attemptsAt_congr hsame]
    · exact attemptsAt_purgeLoop rest hlive

theorem attemptsAt_dropStale (p : Policy) (windows : Windows) (c : Call) (key key' : String) :
    attemptsAt (dropStale c.now windows (key', p.limit key', p.period key')) key (p.bucket c key) =
      attemptsAt windows key (p.bucket c key) := by
  rw [RateLimit.dropStale]
  split_ifs with hstale
  · rcases eq_or_ne key key' with rfl | hne
    · cases hlook : windows.lookup key with
      | none => simp [attemptsAt, hlook]
      | some w =>
        have hb : w.bucket ≠ p.bucket c key := by simpa [hlook, Policy.bucket] using hstale
        simp [attemptsAt, hlook, hb]
    · exact attemptsAt_congr (AList.lookup_erase_ne hne)
  · rfl

theorem attemptsAt_dropStale_all (p : Policy) (c : Call) (key : String) :
    ∀ (keys : List String) (windows : Windows),
    attemptsAt ((p.request keys).foldl (dropStale c.now) windows) key (p.bucket c key) =
      attemptsAt windows key (p.bucket c key)
  | [], _ => rfl
  | key' :: rest, windows =>
    (attemptsAt_dropStale_all p c key rest _).trans (attemptsAt_dropStale p windows c key key')

/-- A rejected call leaves every counter of the current bucket as it was. -/
theorem attemptsAt_rejected {s : AttemptLimiterState} (h : Tracks p s.windows log opened served)
    (hlocks : p.locks c = true) (hclock : c.now < u64Max) (hno : (step p s c).1.isOk = false)
    (key : String) :
    attemptsAt (step p s c).2.windows key (p.bucket c key) =
      attemptsAt s.windows key (p.bucket c key) := by
  rw [step_rejected_state hlocks hno]
  refine (attemptsAt_dropStale_all p c key c.keys _).trans (attemptsAt_purgeLoop _ fun w hw hb => ?_)
  obtain ⟨hp, he, -, -⟩ := h.window key w hw
  rw [he, hb]
  exact now_lt_bucketEnd hp hclock

/-! ### Whole runs -/

/-- The rest of a run in order, after the calls served so far. -/
structure InOrderAfter (p : Policy) (served calls : List Call) : Prop where
  clock : ∀ c ∈ calls, p.locks c = true → c.now < u64Max
  kept : ∀ mid c post, calls.filter p.locks = mid ++ c :: post →
    ∀ key ∈ c.keys, ¬ Lost p (served ++ mid) key (p.bucket c key)

theorem InOrder.after_nil {calls : List Call} (h : InOrder p calls) : InOrderAfter p [] calls := by
  refine ⟨h.clock, fun mid c post heq key hkey hlost => ?_⟩
  obtain ⟨pre, first, mid', hmid, hfirst, hb, c', hmem, hleaves⟩ := hlost
  rw [List.nil_append] at hmid
  exact h.kept pre first mid' c post (by rw [heq, hmid]; simp) key hfirst hkey hb c' hmem hleaves

theorem InOrderAfter.open {calls : List Call} (h : InOrderAfter p served (c :: calls))
    (hlocks : p.locks c = true) : Open p served c :=
  ⟨h.clock c (List.mem_cons_self ..) hlocks, fun key hkey => by
    simpa using h.kept [] c (calls.filter p.locks) (by simp [hlocks]) key hkey⟩

theorem InOrderAfter.tail {calls : List Call} (h : InOrderAfter p served (c :: calls)) :
    InOrderAfter p (if p.locks c then served ++ [c] else served) calls := by
  refine ⟨fun c' hmem => h.clock c' (List.mem_cons_of_mem _ hmem), fun mid c' post heq key hkey => ?_⟩
  cases hlocks : p.locks c with
  | true =>
    simpa using h.kept (c :: mid) c' post (by simp [hlocks, heq]) key hkey
  | false =>
    simpa using h.kept mid c' post (by simp [hlocks, heq]) key hkey

/-- Along a run in order, the windows track the admitted calls, which stay within the policy. -/
theorem accepted_budgeted : ∀ (calls : List Call) (s : AttemptLimiterState) (served : List Call)
    (history : List (List (Charge String))), Tracks p s.windows history.flatten served served →
    Budgeted p.limit history → InOrderAfter p served calls →
    Budgeted p.limit (history ++ (accepted p s calls).map p.charges)
  | [], _, _, history, _, hb, _ => by simpa [accepted] using hb
  | c :: rest, s, served, history, h, hb, hord => by
    rw [accepted]
    have htail := hord.tail
    cases hlocks : p.locks c with
    | false =>
      obtain ⟨hno, heq⟩ := step_malformed s hlocks
      rw [hlocks] at htail
      rw [hno, heq]
      exact accepted_budgeted rest s served history h hb htail
    | true =>
      rw [hlocks] at htail
      cases hok : (step p s c).1.isOk with
      | true =>
        obtain ⟨hadm, htracks⟩ := step_ok h hlocks (hord.open hlocks) hok
        have hrest := accepted_budgeted rest (step p s c).2 (served ++ [c])
          (history ++ [p.charges c]) (by simpa using htracks) (hb.concat hadm) htail
        simpa [List.append_assoc] using hrest
      | false =>
        exact accepted_budgeted rest (step p s c).2 _ history (step_rejected h hlocks hok) hb htail

/-- The charges of the calls of a run that succeed. -/
def chargesOf (p : Policy) (calls : List Call) : List (Charge String) :=
  (calls.map p.charges).flatten

/-- At every point of a run in order the charges of the calls that succeeded are tracked, and the
    rest of the run is in order. -/
theorem stateAfter_tracks : ∀ (pre rest : List Call) (s : AttemptLimiterState) (served : List Call)
    (log : List (Charge String)), Tracks p s.windows log served served →
    InOrderAfter p served (pre ++ rest) →
    ∃ served', Tracks p (stateAfter p s pre).windows (log ++ chargesOf p (accepted p s pre))
      served' served' ∧ InOrderAfter p served' rest
  | [], _, _, served, log, h, hord => ⟨served, by simpa [chargesOf, accepted, stateAfter] using h, hord⟩
  | c :: pre, rest, s, served, log, h, hord => by
    rw [stateAfter, accepted]
    have htail : InOrderAfter p (if p.locks c then served ++ [c] else served) (pre ++ rest) :=
      hord.tail
    cases hlocks : p.locks c with
    | false =>
      rw [hlocks] at htail
      obtain ⟨hno, heq⟩ := step_malformed s hlocks
      rw [hno, heq]
      exact stateAfter_tracks pre rest s served log h htail
    | true =>
      rw [hlocks] at htail
      cases hok : (step p s c).1.isOk with
      | true =>
        have hopen : Open p served c := hord.open hlocks
        have ih := stateAfter_tracks pre rest _ _ _ (step_ok h hlocks hopen hok).2 htail
        simpa [chargesOf, List.append_assoc] using ih
      | false =>
        exact stateAfter_tracks pre rest _ _ _ (step_rejected h hlocks hok) htail

theorem mem_charges {bucket : ℕ} :
    (key, bucket) ∈ p.charges c ↔ key ∈ c.keys ∧ p.bucket c key = bucket := by
  simp only [Policy.charges, List.mem_map, Prod.mk.injEq]
  constructor
  · rintro ⟨key', hmem, rfl, rfl⟩
    exact ⟨hmem, rfl⟩
  · rintro ⟨hmem, rfl⟩
    exact ⟨key, hmem, rfl, rfl⟩

theorem counted_eq_uses (p : Policy) (calls : List Call) (key : String) (bucket : ℕ) :
    counted p calls key bucket = uses ((accepted p fresh calls).map p.charges) (key, bucket) := by
  simp only [counted, uses, List.filter_map, List.length_map, Function.comp_def, mem_charges]

/-- CORRECT (budget): in a run in order no bucket of a key is counted by more calls than the key's
    limit, and a rejected call leaves every attempt counter of the current bucket as it was. -/
theorem budget_of_inOrder (p : Policy) (calls : List Call) (hord : InOrder p calls) :
    (∀ key bucket, counted p calls key bucket ≤ p.limit key) ∧
    (∀ pre c post, calls = pre ++ c :: post → (step p (stateAfter p fresh pre) c).1.isOk = false →
      ∀ key, attemptsAt (step p (stateAfter p fresh pre) c).2.windows key (p.bucket c key) =
        attemptsAt (stateAfter p fresh pre).windows key (p.bucket c key)) := by
  refine ⟨fun key bucket => ?_, fun pre c post heq hno key => ?_⟩
  · rw [counted_eq_uses]
    have hb := accepted_budgeted calls fresh [] [] (tracks_fresh p) (budgeted_nil _) hord.after_nil
    exact uses_le_limit (by simpa using hb) (key, bucket)
  · obtain ⟨served, h, hrest⟩ :=
      stateAfter_tracks pre (c :: post) fresh [] [] (tracks_fresh p) (heq ▸ hord.after_nil)
    cases hlocks : p.locks c with
    | false => rw [(step_malformed _ hlocks).2]
    | true => exact attemptsAt_rejected h hlocks (hrest.open hlocks).clock hno key

/-- Every key once a minute. -/
def oncePerMinute : Policy := ⟨fun _ => 1, fun _ => .fromSecs 60⟩

theorem budget_of_inOrder_minute :
    counted oncePerMinute [⟨["a"], 60⟩, ⟨["b"], 62⟩, ⟨["a"], 61⟩] "a" 1 ≤ 1 := by
  refine (budget_of_inOrder oncePerMinute [⟨["a"], 60⟩, ⟨["b"], 62⟩, ⟨["a"], 61⟩] ⟨?_, ?_⟩).1 "a" 1
  · decide
  · intro pre first mid last post heq key _ hlast _ c hmem
    have hstay : ∀ c ∈ [⟨["a"], 60⟩, ⟨["b"], 62⟩, ⟨["a"], 61⟩],
        ∀ last ∈ [⟨["a"], 60⟩, ⟨["b"], 62⟩, ⟨["a"], 61⟩],
        ∀ key ∈ last.keys, ¬ Leaves oncePerMinute c key (oncePerMinute.bucket last key) := by
      decide
    have hcalls : ∀ c' ∈ pre ++ first :: (mid ++ last :: post),
        c' ∈ [⟨["a"], 60⟩, ⟨["b"], 62⟩, ⟨["a"], 61⟩] := by
      intro c' hc'
      rw [← heq] at hc'
      exact List.mem_of_mem_filter hc'
    exact hstay c (hcalls c (by simp [hmem])) last (hcalls last (by simp)) key hlast

/-- Two callers that straddle a minute and take the lock the wrong way round: the second one
    replaces the window of the next minute, so the key is counted twice in its first minute. -/
theorem counted_twice_out_of_order :
    ¬ ∀ (p : Policy) (calls : List Call) (key : String) (bucket : ℕ),
      counted p calls key bucket ≤ p.limit key := by
  intro h
  have htwice : counted oncePerMinute [⟨["a"], 59⟩, ⟨["a"], 60⟩, ⟨["a"], 59⟩] "a" 0 = 2 := by decide
  have hle := h oncePerMinute [⟨["a"], 59⟩, ⟨["a"], 60⟩, ⟨["a"], 59⟩] "a" 0
  rw [htwice] at hle
  exact absurd hle (by decide)

end Rustodon.RateLimit
