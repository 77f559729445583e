import Mathlib.Data.Finset.Card
import Rustodon.Remote.Budget
import Rustodon.Schemes.Runs

/-! @src remote.rs | name:Host caps | scheme:semaphores and leases | family:remote

    For no host do more operations run than the budget allows. A semaphore is taken from the map only
    when all its permits are there, so that those of a host belong to one semaphore. A lease outlives
    its operation, and whoever counts the leases of a host is alone until the new one can be seen. -/

namespace Rustodon.Remote
open Schemes.Runs Schemes.Utf8

namespace Local

variable {cap : ℕ} {s s' : State} {host : Text} {semaphore : ℕ}

/-- The permits of a semaphore. -/
def State.permitsOf (s : State) (semaphore : ℕ) : ℕ :=
  s.permits.countP fun permit => decide (permit.semaphore = semaphore)

structure Inv (cap : ℕ) (s : State) : Prop where
  hosts : (s.semaphores.map Prod.fst).Nodup
  ids : (s.semaphores.map Prod.snd).Nodup
  created : ∀ entry ∈ s.semaphores, entry.2 < s.created
  permits : ∀ permit ∈ s.permits, (permit.host, permit.semaphore) ∈ s.semaphores
  counts : ∀ entry ∈ s.semaphores, s.available entry.2 + s.permitsOf entry.2 = cap

theorem inv_initial : Inv cap initial :=
  ⟨List.nodup_nil, List.nodup_nil, nofun, nofun, nofun⟩

theorem tryAcquireOwned_inv (hi : Inv cap s) (h : (host, semaphore) ∈ s.semaphores) :
    Inv cap (s.tryAcquireOwned host semaphore).1 := by
  rw [State.tryAcquireOwned]
  split_ifs with hzero
  · exact hi
  refine ⟨hi.hosts, hi.ids, hi.created, fun permit hpermit => ?_, fun entry hentry => ?_⟩
  · rcases List.mem_cons.mp hpermit with rfl | hpermit
    · exact h
    · exact hi.permits permit hpermit
  · have hcount := hi.counts entry hentry
    rw [State.permitsOf] at hcount ⊢
    dsimp only at hcount ⊢
    rw [List.countP_cons]
    by_cases hid : entry.2 = semaphore
    · rw [hid] at hcount ⊢
      rw [Function.update_self, if_pos (decide_eq_true rfl)]
      omega
    · rw [Function.update_of_ne hid, if_neg (by simpa using fun heq => hid heq.symm)]
      exact hcount

theorem permitsOf_created (hi : Inv cap s) : s.permitsOf s.created = 0 := by
  rw [State.permitsOf, List.countP_eq_zero]
  intro permit hpermit
  have hlt := hi.created _ (hi.permits permit hpermit)
  rw [decide_eq_true_iff]
  exact hlt.ne

theorem insert_inv (hi : Inv cap s) (h : host ∉ s.semaphores.map Prod.fst) :
    Inv cap (s.insert cap host) := by
  refine ⟨List.nodup_cons.mpr ⟨h, hi.hosts⟩, List.nodup_cons.mpr ⟨?_, hi.ids⟩, ?_, ?_, ?_⟩
  · intro hmem
    obtain ⟨entry, hentry, hid⟩ := List.mem_map.mp hmem
    exact (hi.created entry hentry).ne hid
  · intro entry hentry
    rcases List.mem_cons.mp hentry with rfl | hentry
    · exact Nat.lt_succ_self _
    · exact Nat.lt_succ_of_lt (hi.created entry hentry)
  · exact fun permit hpermit => List.mem_cons_of_mem _ (hi.permits permit hpermit)
  · intro entry hentry
    rcases List.mem_cons.mp hentry with rfl | hentry
    · have hzero : (s.insert cap host).permitsOf s.created = 0 := permitsOf_created hi
      rw [hzero]
      exact (Nat.add_zero _).trans (Function.update_self ..)
    · have hold : (s.insert cap host).available entry.2 = s.available entry.2 :=
        Function.update_of_ne (hi.created entry hentry).ne ..
      rw [hold]
      exact hi.counts entry hentry

/-- An idle semaphore has no permits outside. -/
theorem evict_inv (hi : Inv cap s) {idle : Text × ℕ} (hmem : idle ∈ s.semaphores)
    (hidle : s.isIdle cap idle = true) :
    Inv cap { s with semaphores := s.semaphores.erase idle } := by
  have hsublist := List.erase_sublist (a := idle) (l := s.semaphores)
  refine ⟨hi.hosts.sublist (hsublist.map _), hi.ids.sublist (hsublist.map _),
    fun entry hentry => hi.created entry (hsublist.subset hentry), fun permit hpermit => ?_,
    fun entry hentry => hi.counts entry (hsublist.subset hentry)⟩
  refine (List.mem_erase_of_ne ?_).mpr (hi.permits permit hpermit)
  rintro rfl
  have hcount := hi.counts _ hmem
  rw [of_decide_eq_true hidle] at hcount
  have hpos : 0 < s.permitsOf permit.semaphore :=
    List.countP_pos_iff.mpr ⟨permit, hpermit, decide_eq_true rfl⟩
  dsimp only at hcount
  omega

theorem drop_inv (hi : Inv cap s) {permit : Permit} (h : s.drop permit = some s') : Inv cap s' := by
  rw [State.drop] at h
  split_ifs at h with hmem
  obtain rfl := Option.some.inj h
  refine ⟨hi.hosts, hi.ids, hi.created,
    fun permit' hpermit' => hi.permits permit' (List.mem_of_mem_erase hpermit'), fun entry hentry => ?_⟩
  have hcount := hi.counts entry hentry
  rw [State.permitsOf] at hcount ⊢
  dsimp only at hcount ⊢
  rw [List.countP_erase]
  by_cases hid : entry.2 = permit.semaphore
  · have hpos : 0 < s.permits.countP fun permit' => decide (permit'.semaphore = permit.semaphore) :=
      List.countP_pos_iff.mpr ⟨permit, hmem, decide_eq_true rfl⟩
    rw [hid] at hcount ⊢
    rw [Function.update_self, if_pos ⟨hmem, decide_eq_true rfl⟩]
    omega
  · rw [Function.update_of_ne hid, if_neg (by simpa [hmem] using fun heq => hid heq.symm)]
    exact hcount

/-- Nothing changes when no permit is had. -/
theorem tryAcquireOwned_error {e : RemoteFetchError}
    (h : (s.tryAcquireOwned host semaphore).2 = .error e) :
    s.available semaphore = 0 ∧ (s.tryAcquireOwned host semaphore).1 = s := by
  rw [State.tryAcquireOwned] at h ⊢
  split_ifs at h ⊢ with hzero
  exact ⟨hzero, rfl⟩

theorem acquireLocal_inv (hi : Inv cap s) {idle : Text × ℕ} {result : Fetched Permit}
    (h : s.acquireLocal cap host idle = some (s', result)) : Inv cap s' := by
  rw [State.acquireLocal] at h
  split at h
  · rename_i found semaphore hfind
    have hhost : found = host := by simpa using List.find?_some hfind
    have hmem := List.mem_of_find?_eq_some hfind
    rw [hhost] at hmem
    have hs' : (s.tryAcquireOwned host semaphore).1 = s' := congrArg Prod.fst (Option.some.inj h)
    rw [← hs']
    exact tryAcquireOwned_inv hi hmem
  · rename_i hnone
    have hnew : host ∉ s.semaphores.map Prod.fst := by
      intro hmem
      obtain ⟨entry, hentry, heq⟩ := List.mem_map.mp hmem
      exact (List.find?_eq_none.mp hnone entry hentry) (decide_eq_true heq)
    split at h
    · split at h
      · split at h
        · rename_i hidle
          have hevict := evict_inv hi hidle.1 hidle.2
          have hinsert := insert_inv hevict fun hmem =>
            hnew ((List.erase_sublist.map Prod.fst).subset hmem)
          rw [← (Prod.mk.inj (Option.some.inj h)).1]
          exact tryAcquireOwned_inv hinsert List.mem_cons_self
        · cases h
      · rw [← (Prod.mk.inj (Option.some.inj h)).1]
        exact hi
    · rw [← (Prod.mk.inj (Option.some.inj h)).1]
      exact tryAcquireOwned_inv (insert_inv hi hnew) List.mem_cons_self

theorem run_inv {ops : List Op} (h : Run (Step cap) initial ops s) : Inv cap s := by
  refine h.preserves (fun s op s' hi hstep => ?_) inv_initial
  cases op with
  | acquire host idle =>
    obtain ⟨⟨t, result⟩, hacquire, rfl⟩ := Option.map_eq_some_iff.mp hstep
    exact acquireLocal_inv hi hacquire
  | drop permit => exact drop_inv hi hstep

theorem Inv.running_le (hi : Inv cap s) (host : Text) : s.running host ≤ cap := by
  by_cases hnone : ∃ permit ∈ s.permits, permit.host = host
  · obtain ⟨permit, hpermit, rfl⟩ := hnone
    have hentry := hi.permits permit hpermit
    have hcount := hi.counts _ hentry
    have hle : s.running permit.host ≤ s.permitsOf permit.semaphore := by
      refine List.countP_mono_left fun permit' hpermit' hhost => decide_eq_true ?_
      have hentry' := hi.permits permit' hpermit'
      rw [of_decide_eq_true hhost] at hentry'
      have hsame := List.inj_on_of_nodup_map hi.hosts hentry' hentry rfl
      exact (Prod.mk.inj hsame).2
    dsimp only at hcount
    omega
  · have hzero : s.running host = 0 := by
      rw [State.running, List.countP_eq_zero]
      exact fun permit hpermit heq => hnone ⟨permit, hpermit, of_decide_eq_true heq⟩
    omega

/-- A failed acquire changes nothing. -/
theorem acquireLocal_error (hcap : 0 < cap) {idle : Text × ℕ} {e : RemoteFetchError}
    (h : s.acquireLocal cap host idle = some (s', .error e)) : s' = s := by
  rw [State.acquireLocal] at h
  have hfresh (s₀ : State) :
      ((s₀.insert cap host).tryAcquireOwned host s₀.created).2 ≠ .error e := by
    intro herror
    have hzero := (tryAcquireOwned_error herror).1
    have hnew : (s₀.insert cap host).available s₀.created = cap := Function.update_self ..
    omega
  split at h
  · rename_i semaphore _
    obtain ⟨hs', herror⟩ := Prod.mk.inj (Option.some.inj h)
    exact hs' ▸ (tryAcquireOwned_error herror).2
  · split at h
    · split at h
      · split at h
        · exact absurd (Prod.mk.inj (Option.some.inj h)).2
            (hfresh { s with semaphores := s.semaphores.erase idle })
        · cases h
      · exact (Prod.mk.inj (Option.some.inj h)).1.symm
    · exact absurd (Prod.mk.inj (Option.some.inj h)).2 (hfresh s)

end Local

namespace Shared

variable {cap : ℕ} {hashtext : Text → ℤ} {s s' : State} {t : Task}

/-- The host whose advisory lock the transaction of a task holds. -/
def Stage.lockedHost : Stage → Option Text
  | .locked host | .purged host | .counted host _ => some host
  | .inserted lease _ => some lease.host
  | _ => none

/-- The lease that a task has inserted and not yet got rid of. -/
def Stage.lease : Stage → Option Lease
  | .inserted lease _ | .running lease _ _ | .finished lease => some lease
  | _ => none

/-- The lease of the permit that a task has, or has not released yet. -/
def Stage.permit : Stage → Option Lease
  | .running lease _ _ | .finished lease => some lease
  | _ => none

/-- An operation of the task runs for the host. -/
def RunningAt (s : State) (host : Text) (t : Task) : Prop :=
  ∃ lease insertedAt since, s.stages t = .running lease insertedAt since ∧ lease.host = host

/-- No more than so many operations run for the host. -/
def AtMost (s : State) (host : Text) (n : ℕ) : Prop :=
  ∀ tasks : Finset Task, (∀ t ∈ tasks, RunningAt s host t) → tasks.card ≤ n

structure Inv (cap : ℕ) (hashtext : Text → ℤ) (s : State) : Prop where
  locks : ∀ t host, (s.stages t).lockedHost = some host → s.locks (hashtext host) = some t
  issued : ∀ t lease, (s.stages t).lease = some lease → lease.leaseId < s.issued
  distinct : ∀ t t' lease lease', (s.stages t).lease = some lease →
    (s.stages t').lease = some lease' → lease.leaseId = lease'.leaseId → t = t'
  inserted : ∀ t lease insertedAt, s.stages t = .inserted lease insertedAt →
    lease.expiresAt = insertedAt + leaseTtl ∧ AtMost s lease.host (cap - 1) ∧ 0 < cap
  running : ∀ t lease insertedAt since, s.stages t = .running lease insertedAt since →
    lease ∈ s.leases ∧ lease.expiresAt = insertedAt + leaseTtl
  counted : ∀ t host active, s.stages t = .counted host active → AtMost s host active
  bounded : ∀ host, AtMost s host cap
  accounted : ∀ row ∈ s.leases, row.leaseId ∈ s.left ∨ ∃ t, (s.stages t).permit = some row

theorem inv_initial (clock : ℤ) : Inv cap hashtext (initial clock) where
  locks := nofun
  issued := nofun
  distinct := nofun
  inserted := nofun
  running := nofun
  counted := nofun
  bounded host tasks h := by
    have hempty : tasks = ∅ := by
      refine Finset.eq_empty_of_forall_notMem fun t ht => ?_
      obtain ⟨_, _, _, hstage, -⟩ := h t ht
      cases hstage
    rw [hempty]
    exact Nat.zero_le _
  accounted := nofun

theorem AtMost.mono {host : Text} {n : ℕ} (h : AtMost s host n)
    (hle : ∀ t, RunningAt s' host t → RunningAt s host t) : AtMost s' host n :=
  fun tasks htasks => h tasks fun t ht => hle t (htasks t ht)

/-- A task that stops to run, or does not begin to. -/
theorem runningAt_of_update {stage : Stage} (hstages : s'.stages = Function.update s.stages t stage)
    (hstage : ∀ lease insertedAt since, stage ≠ .running lease insertedAt since) {host : Text}
    {t' : Task} (h : RunningAt s' host t') : RunningAt s host t' := by
  obtain ⟨lease, insertedAt, since, hrunning, hhost⟩ := h
  rw [hstages] at hrunning
  by_cases heq : t' = t
  · subst heq
    rw [Function.update_self] at hrunning
    exact absurd hrunning (hstage lease insertedAt since)
  · rw [Function.update_of_ne heq] at hrunning
    exact ⟨lease, insertedAt, since, hrunning, hhost⟩

/-- What a step of a task that does not begin to run leaves as it is. -/
structure Moved (s s' : State) (t : Task) (stage : Stage) : Prop where
  stages : s'.stages = Function.update s.stages t stage
  quiet : ∀ lease insertedAt since, stage ≠ .running lease insertedAt since
  locks : ∀ key, ∀ t' ≠ t, s.locks key = some t' → s'.locks key = some t'
  issued : s.issued ≤ s'.issued
  clock : s'.clock = s.clock
  left : ∀ id ∈ s.left, id ∈ s'.left

theorem locks_unlock (key : ℤ) (t' : Task) (hne : t' ≠ t) (h : s.locks key = some t') :
    (s.unlock t).locks key = some t' := by
  have hkeep : s.locks key ≠ some t := by
    rw [h]
    exact fun heq => hne (Option.some.inj heq)
  exact (if_neg hkeep).trans h

/-- The invariant after a step of one task, from what it says of the task alone. -/
theorem Inv.moved (hi : Inv cap hashtext s) {stage : Stage} (h : Moved s s' t stage)
    (hlock : ∀ host, stage.lockedHost = some host → s'.locks (hashtext host) = some t)
    (hlease : ∀ lease, stage.lease = some lease → lease.leaseId < s'.issued ∧
      ∀ t' lease', t' ≠ t → (s.stages t').lease = some lease' → lease'.leaseId ≠ lease.leaseId)
    (hinserted : ∀ lease insertedAt, stage = .inserted lease insertedAt →
      lease.expiresAt = insertedAt + leaseTtl ∧ AtMost s lease.host (cap - 1) ∧ 0 < cap)
    (hcounted : ∀ host active, stage = .counted host active → AtMost s host active)
    (hkept : ∀ t' ≠ t, ∀ lease insertedAt since, s.stages t' = .running lease insertedAt since →
      lease ∈ s'.leases)
    (hrows : ∀ row ∈ s'.leases, row.leaseId ∈ s'.left ∨ stage.permit = some row ∨
      ∃ t' ≠ t, (s.stages t').permit = some row) : Inv cap hashtext s' := by
  have hself : s'.stages t = stage := by rw [h.stages, Function.update_self]
  have hother (t' : Task) (hne : t' ≠ t) : s'.stages t' = s.stages t' := by
    rw [h.stages, Function.update_of_ne hne]
  have hmono (host : Text) (t' : Task) : RunningAt s' host t' → RunningAt s host t' :=
    runningAt_of_update h.stages h.quiet
  refine ⟨fun t' host hhost => ?_, fun t' lease ht' => ?_, fun t₁ t₂ lease₁ lease₂ h₁ h₂ hid => ?_,
    fun t' lease insertedAt ht' => ?_, fun t' lease insertedAt since ht' => ?_,
    fun t' host active ht' => ?_, fun host => (hi.bounded host).mono (hmono host),
    fun row hrow => ?_⟩
  · by_cases hne : t' = t
    · subst hne
      rw [hself] at hhost
      exact hlock host hhost
    · rw [hother t' hne] at hhost
      exact h.locks _ t' hne (hi.locks t' host hhost)
  · by_cases hne : t' = t
    · subst hne
      rw [hself] at ht'
      exact (hlease lease ht').1
    · rw [hother t' hne] at ht'
      exact lt_of_lt_of_le (hi.issued t' lease ht') h.issued
  · by_cases hne₁ : t₁ = t
    · by_cases hne₂ : t₂ = t
      · rw [hne₁, hne₂]
      · rw [hne₁, hself] at h₁
        rw [hother t₂ hne₂] at h₂
        exact absurd hid.symm ((hlease lease₁ h₁).2 t₂ lease₂ hne₂ h₂)
    · rw [hother t₁ hne₁] at h₁
      by_cases hne₂ : t₂ = t
      · rw [hne₂, hself] at h₂
        exact absurd hid ((hlease lease₂ h₂).2 t₁ lease₁ hne₁ h₁)
      · rw [hother t₂ hne₂] at h₂
        exact hi.distinct t₁ t₂ lease₁ lease₂ h₁ h₂ hid
  · by_cases hne : t' = t
    · subst hne
      rw [hself] at ht'
      obtain ⟨hexpires, hmost, hcap⟩ := hinserted lease insertedAt ht'
      exact ⟨hexpires, hmost.mono (hmono _), hcap⟩
    · rw [hother t' hne] at ht'
      obtain ⟨hexpires, hmost, hcap⟩ := hi.inserted t' lease insertedAt ht'
      exact ⟨hexpires, hmost.mono (hmono _), hcap⟩
  · by_cases hne : t' = t
    · subst hne
      rw [hself] at ht'
      exact absurd ht' (h.quiet lease insertedAt since)
    · rw [hother t' hne] at ht'
      exact ⟨hkept t' hne lease insertedAt since ht', (hi.running t' lease insertedAt since ht').2⟩
  · by_cases hne : t' = t
    · subst hne
      rw [hself] at ht'
      exact (hcounted host active ht').mono (hmono host)
    · rw [hother t' hne] at ht'
      exact (hi.counted t' host active ht').mono (hmono host)
  · rcases hrows row hrow with hleft | hmine | ⟨t', hne, ht'⟩
    · exact .inl hleft
    · exact .inr ⟨t, by rw [hself]; exact hmine⟩
    · exact .inr ⟨t', by rw [hother t' hne]; exact ht'⟩

section Steps

/-- The lease of another task is not that of this one. -/
theorem Inv.lease_ne (hi : Inv cap hashtext s) {lease : Lease}
    (h : (s.stages t).lease = some lease) : ∀ t' lease', t' ≠ t →
      (s.stages t').lease = some lease' → lease'.leaseId ≠ lease.leaseId :=
  fun t' lease' hne h' hid => hne (hi.distinct t' t lease' lease h' h hid)

/-- A step that leaves the leases alone, from a task without a permit to one without a lease. -/
theorem Inv.moved_without (hi : Inv cap hashtext s) {stage : Stage} (h : Moved s s' t stage)
    (hleases : s'.leases = s.leases) (hpermit : (s.stages t).permit = none)
    (hnone : stage.lease = none)
    (hlock : ∀ host, stage.lockedHost = some host → s'.locks (hashtext host) = some t)
    (hcounted : ∀ host active, stage = .counted host active → AtMost s host active) :
    Inv cap hashtext s' := by
  refine hi.moved h hlock (fun lease hlease => ?_) (fun lease insertedAt hstage => ?_) hcounted
    (fun t' _ lease insertedAt since hrunning => ?_) fun row hrow => ?_
  · rw [hnone] at hlease
    cases hlease
  · rw [hstage] at hnone
    cases hnone
  · rw [hleases]
    exact (hi.running t' lease insertedAt since hrunning).1
  · rw [hleases] at hrow
    rcases hi.accounted row hrow with hleft | ⟨t', ht'⟩
    · exact .inl (h.left _ hleft)
    · refine .inr (.inr ⟨t', ?_, ht'⟩)
      rintro rfl
      rw [hpermit] at ht'
      cases ht'

/-- The timeouts that keep a lease alive as long as its operation runs. -/
theorem Inv.alive (hi : Inv cap hashtext s) {timeout delay : ℤ} (hsum : timeout + delay ≤ leaseTtl)
    (htimely : Timely timeout s) (hprompt : Prompt delay s) {lease : Lease} {insertedAt since : ℤ}
    (h : s.stages t = .running lease insertedAt since) :
    lease ∈ s.leases ∧ s.clock < lease.expiresAt := by
  obtain ⟨hmem, hexpires⟩ := hi.running t lease insertedAt since h
  have hclock := htimely t lease insertedAt since h
  have hsince := hprompt t lease insertedAt since h
  exact ⟨hmem, by omega⟩

theorem begin_inv (hi : Inv cap hashtext s) (h : s.stages t = .idle) (host : Text) :
    Inv cap hashtext (s.setStage t (.begun host)) :=
  hi.moved_without (t := t)
    ⟨rfl, nofun, fun _ _ _ hlock => hlock, le_rfl, rfl, fun _ hid => hid⟩ rfl (by rw [h]; rfl) rfl nofun nofun

theorem lock_inv (hi : Inv cap hashtext s) (h : s.lock hashtext t = some s') :
    Inv cap hashtext s' := by
  rw [State.lock] at h
  split at h
  swap
  · cases h
  rename_i host hstage
  split_ifs at h with hfree
  obtain rfl := Option.some.inj h
  refine hi.moved_without (t := t) (s := s)
    ⟨rfl, nofun, fun key t' hne hlock => ?_, le_rfl, rfl, fun _ hid => hid⟩ rfl (by rw [hstage]; rfl) rfl
    (fun host' hhost' => ?_) nofun
  · have hkey : key ≠ hashtext host := by
      rintro rfl
      rw [hfree] at hlock
      cases hlock
    exact (Function.update_of_ne hkey ..).trans hlock
  · obtain rfl := Option.some.inj hhost'
    exact Function.update_self ..

theorem purge_inv (hi : Inv cap hashtext s) {timeout delay : ℤ} (hsum : timeout + delay ≤ leaseTtl)
    (htimely : Timely timeout s) (hprompt : Prompt delay s) (h : s.purge t = some s') :
    Inv cap hashtext s' := by
  rw [State.purge] at h
  split at h
  swap
  · cases h
  rename_i host hstage
  obtain rfl := Option.some.inj h
  refine hi.moved (t := t) ⟨rfl, nofun, fun _ _ _ hlock => hlock, le_rfl, rfl, fun _ hid => hid⟩
    (fun host' hhost' => ?_) nofun nofun nofun (fun t' _ lease insertedAt since hrunning => ?_)
    fun row hrow => ?_
  · exact hi.locks t host' (by rw [hstage]; exact hhost')
  · obtain ⟨hmem, hlive⟩ := hi.alive hsum htimely hprompt hrunning
    refine List.mem_filter.mpr ⟨hmem, ?_⟩
    rw [Bool.not_eq_true', decide_eq_false_iff_not]
    exact fun hexpired => absurd hexpired.2 (not_le_of_gt hlive)
  · rcases hi.accounted row (List.mem_of_mem_filter hrow) with hleft | ⟨t', ht'⟩
    · exact .inl hleft
    · refine .inr (.inr ⟨t', ?_, ht'⟩)
      rintro rfl
      rw [hstage] at ht'
      cases ht'

/-- The operations that run for a host have leases that are counted. -/
theorem Inv.atMost_active (hi : Inv cap hashtext s) {timeout delay : ℤ}
    (hsum : timeout + delay ≤ leaseTtl) (htimely : Timely timeout s) (hprompt : Prompt delay s)
    (host : Text) : AtMost s host (s.active host).length := by
  intro tasks htasks
  have hle : tasks.card ≤ ((s.active host).map Lease.leaseId).toFinset.card := by
    refine Finset.card_le_card_of_injOn
      (fun t => ((s.stages t).lease.elim 0 Lease.leaseId)) (fun t ht => ?_) fun t₁ h₁ t₂ h₂ heq => ?_
    · obtain ⟨lease, insertedAt, since, hstage, hhost⟩ := htasks t ht
      obtain ⟨hmem, hlive⟩ := hi.alive hsum htimely hprompt hstage
      have hid : (s.stages t).lease.elim 0 Lease.leaseId = lease.leaseId := by rw [hstage]; rfl
      refine List.mem_toFinset.mpr (List.mem_map.mpr ⟨lease, ?_, hid.symm⟩)
      exact List.mem_filter.mpr ⟨hmem, decide_eq_true ⟨hhost, hlive⟩⟩
    · obtain ⟨lease₁, _, _, hstage₁, -⟩ := htasks t₁ h₁
      obtain ⟨lease₂, _, _, hstage₂, -⟩ := htasks t₂ h₂
      dsimp only at heq
      rw [hstage₁, hstage₂] at heq
      exact hi.distinct t₁ t₂ lease₁ lease₂ (by rw [hstage₁]; rfl) (by rw [hstage₂]; rfl) heq
  exact hle.trans ((List.toFinset_card_le _).trans_eq (List.length_map _))

theorem count_inv (hi : Inv cap hashtext s) {timeout delay : ℤ} (hsum : timeout + delay ≤ leaseTtl)
    (htimely : Timely timeout s) (hprompt : Prompt delay s) (h : s.count t = some s') :
    Inv cap hashtext s' := by
  rw [State.count] at h
  split at h
  swap
  · cases h
  rename_i host hstage
  obtain rfl := Option.some.inj h
  refine hi.moved_without (t := t) (s := s)
    ⟨rfl, nofun, fun _ _ _ hlock => hlock, le_rfl, rfl, fun _ hid => hid⟩ rfl (by rw [hstage]; rfl) rfl
    (fun host' hhost' => ?_) fun host' active hcounted => ?_
  · exact hi.locks t host' (by rw [hstage]; exact hhost')
  · obtain ⟨rfl, rfl⟩ := Stage.counted.inj hcounted
    exact hi.atMost_active hsum htimely hprompt host

theorem refuse_inv (hi : Inv cap hashtext s) (h : s.refuse cap t = some s') :
    Inv cap hashtext s' := by
  rw [State.refuse] at h
  split at h
  swap
  · cases h
  rename_i hstage
  split_ifs at h
  obtain rfl := Option.some.inj h
  exact hi.moved_without (t := t) (s := s)
    ⟨rfl, nofun, locks_unlock, le_rfl, rfl, fun _ hid => hid⟩ rfl (by rw [hstage]; rfl) rfl nofun nofun

theorem abort_spec (h : s.abort t = some s') :
    s' = (s.unlock t).setStage t .idle ∧ (s.stages t).permit = none := by
  rw [State.abort] at h
  split at h
  all_goals first
    | cases h; done
    | rename_i hstage
      exact ⟨(Option.some.inj h).symm, by rw [hstage]; rfl⟩

theorem abort_inv (hi : Inv cap hashtext s) (h : s.abort t = some s') : Inv cap hashtext s' := by
  obtain ⟨rfl, hpermit⟩ := abort_spec h
  exact hi.moved_without (t := t) (s := s)
    ⟨rfl, nofun, locks_unlock, le_rfl, rfl, fun _ hid => hid⟩ rfl hpermit rfl nofun nofun

theorem insert_inv (hi : Inv cap hashtext s) (h : s.insert cap t = some s') :
    Inv cap hashtext s' := by
  rw [State.insert] at h
  split at h
  swap
  · cases h
  rename_i host active hstage
  split_ifs at h with hlt
  obtain rfl := Option.some.inj h
  refine hi.moved (t := t)
    ⟨rfl, nofun, fun _ _ _ hlock => hlock, Nat.le_succ _, rfl, fun _ hid => hid⟩ (fun host' hhost' => ?_)
    (fun lease hlease => ?_) (fun lease insertedAt hinserted => ?_) nofun
    (fun t' _ lease insertedAt since hrunning => (hi.running t' lease insertedAt since hrunning).1)
    fun row hrow => ?_
  · exact hi.locks t host' (by rw [hstage]; exact hhost')
  · obtain rfl := Option.some.inj hlease
    exact ⟨Nat.lt_succ_self _, fun t' lease' _ h' => (hi.issued t' lease' h').ne⟩
  · obtain ⟨rfl, rfl⟩ := Stage.inserted.inj hinserted
    refine ⟨rfl, fun tasks htasks => ?_, by omega⟩
    have hcount := hi.counted t host active hstage tasks htasks
    omega
  · rcases hi.accounted row hrow with hleft | ⟨t', ht'⟩
    · exact .inl hleft
    · refine .inr (.inr ⟨t', ?_, ht'⟩)
      rintro rfl
      rw [hstage] at ht'
      cases ht'

theorem release_inv (hi : Inv cap hashtext s) (h : s.release t = some s') : Inv cap hashtext s' := by
  rw [State.release] at h
  split at h
  swap
  · cases h
  rename_i lease hstage
  have hmine : (s.stages t).lease = some lease := by rw [hstage]; rfl
  obtain rfl := Option.some.inj h
  refine hi.moved (t := t) ⟨rfl, nofun, fun _ _ _ hlock => hlock, le_rfl, rfl, fun _ hid => hid⟩
    nofun nofun nofun nofun (fun t' hne lease' insertedAt since hrunning => ?_) fun row hrow => ?_
  · refine List.mem_filter.mpr ⟨(hi.running t' lease' insertedAt since hrunning).1, ?_⟩
    rw [Bool.not_eq_true', decide_eq_false_iff_not]
    exact fun heq => hi.lease_ne hmine t' lease' hne (by rw [hrunning]; rfl) heq.2
  · obtain ⟨hmem, hkept⟩ := List.mem_filter.mp hrow
    rw [Bool.not_eq_true', decide_eq_false_iff_not] at hkept
    rcases hi.accounted row hmem with hleft | ⟨t', ht'⟩
    · exact .inl hleft
    · refine .inr (.inr ⟨t', ?_, ht'⟩)
      rintro rfl
      rw [hstage] at ht'
      obtain rfl := Option.some.inj ht'
      exact hkept ⟨rfl, rfl⟩

theorem finish_inv (hi : Inv cap hashtext s) (h : s.finish t = some s') : Inv cap hashtext s' := by
  rw [State.finish] at h
  split at h
  swap
  · cases h
  rename_i lease insertedAt since hstage
  have hmine : (s.stages t).lease = some lease := by rw [hstage]; rfl
  obtain rfl := Option.some.inj h
  refine hi.moved (t := t) ⟨rfl, nofun, fun _ _ _ hlock => hlock, le_rfl, rfl, fun _ hid => hid⟩
    nofun (fun lease' hlease' => ?_) nofun nofun
    (fun t' _ lease insertedAt since hrunning => (hi.running t' lease insertedAt since hrunning).1)
    fun row hrow => ?_
  · obtain rfl := Option.some.inj hlease'
    exact ⟨hi.issued t lease hmine, hi.lease_ne hmine⟩
  · rcases hi.accounted row hrow with hleft | ⟨t', ht'⟩
    · exact .inl hleft
    · by_cases hne : t' = t
      · rw [hne, hstage] at ht'
        exact .inr (.inl ht')
      · exact .inr (.inr ⟨t', hne, ht'⟩)

theorem abandon_spec (h : s.abandon t = some s') : ∃ lease, (s.stages t).permit = some lease ∧
    s' = { s with left := lease.leaseId :: s.left }.setStage t .idle := by
  rw [State.abandon] at h
  split at h
  · rename_i lease _ _ hstage
    exact ⟨lease, by rw [hstage]; rfl, (Option.some.inj h).symm⟩
  · rename_i lease hstage
    exact ⟨lease, by rw [hstage]; rfl, (Option.some.inj h).symm⟩
  · cases h

theorem abandon_inv (hi : Inv cap hashtext s) (h : s.abandon t = some s') : Inv cap hashtext s' := by
  obtain ⟨lease, hpermit, rfl⟩ := abandon_spec h
  refine hi.moved (t := t)
    ⟨rfl, nofun, fun _ _ _ hlock => hlock, le_rfl, rfl, fun _ hid => List.mem_cons_of_mem _ hid⟩
    nofun nofun nofun nofun
    (fun t' _ lease insertedAt since hrunning => (hi.running t' lease insertedAt since hrunning).1)
    fun row hrow => ?_
  rcases hi.accounted row hrow with hleft | ⟨t', ht'⟩
  · exact .inl (List.mem_cons_of_mem _ hleft)
  · by_cases hne : t' = t
    · rw [hne, hpermit] at ht'
      obtain rfl := Option.some.inj ht'
      exact .inl List.mem_cons_self
    · exact .inr (.inr ⟨t', hne, ht'⟩)

theorem commitLost_inv (hi : Inv cap hashtext s) (h : s.commitLost t = some s') :
    Inv cap hashtext s' := by
  rw [State.commitLost] at h
  split at h
  swap
  · cases h
  rename_i lease insertedAt hstage
  obtain rfl := Option.some.inj h
  refine hi.moved (t := t)
    ⟨rfl, nofun, locks_unlock, le_rfl, rfl, fun _ hid => List.mem_cons_of_mem _ hid⟩
    nofun nofun nofun nofun (fun t' _ lease' insertedAt' since hrunning =>
      List.mem_cons_of_mem _ (hi.running t' lease' insertedAt' since hrunning).1) fun row hrow => ?_
  rcases List.mem_cons.mp hrow with rfl | hrow
  · exact .inl List.mem_cons_self
  · rcases hi.accounted row hrow with hleft | ⟨t', ht'⟩
    · exact .inl (List.mem_cons_of_mem _ hleft)
    · refine .inr (.inr ⟨t', ?_, ht'⟩)
      rintro rfl
      rw [hstage] at ht'
      cases ht'

/-- Once an operation has begun, there is one more for its host, and no more for another. -/
theorem atMost_commit {lease : Lease} {insertedAt since : ℤ}
    (hstages : s'.stages = Function.update s.stages t (.running lease insertedAt since)) {host : Text}
    {n : ℕ} (h : AtMost s host n) : AtMost s' host (if lease.host = host then n + 1 else n) := by
  intro tasks htasks
  have hother (t' : Task) (hne : t' ≠ t) (hrunning : RunningAt s' host t') : RunningAt s host t' := by
    obtain ⟨lease', insertedAt', since', hstage, hhost⟩ := hrunning
    rw [hstages, Function.update_of_ne hne] at hstage
    exact ⟨lease', insertedAt', since', hstage, hhost⟩
  split_ifs with hhost
  · have herase := h (tasks.erase t) fun t' ht' =>
      hother t' (Finset.ne_of_mem_erase ht') (htasks t' (Finset.mem_of_mem_erase ht'))
    have hcard := Finset.pred_card_le_card_erase (s := tasks) (a := t)
    omega
  · refine h tasks fun t' ht' => hother t' ?_ (htasks t' ht')
    rintro rfl
    obtain ⟨lease', insertedAt', since', hstage, hhost'⟩ := htasks t' ht'
    rw [hstages, Function.update_self] at hstage
    obtain ⟨rfl, -, -⟩ := Stage.running.inj hstage
    exact hhost hhost'

theorem commit_inv (hi : Inv cap hashtext s) (h : s.commit t = some s') : Inv cap hashtext s' := by
  rw [State.commit] at h
  split at h
  swap
  · cases h
  rename_i lease insertedAt hstage
  have hmine : (s.stages t).lease = some lease := by rw [hstage]; rfl
  obtain ⟨hexpires, hmost, hcap⟩ := hi.inserted t lease insertedAt hstage
  have hlocked := hi.locks t lease.host (by rw [hstage]; rfl)
  obtain rfl := Option.some.inj h
  generalize hs' : ({ s with leases := lease :: s.leases }.unlock t).setStage t
    (.running lease insertedAt s.clock) = s'
  have hstages : s'.stages = Function.update s.stages t (.running lease insertedAt s.clock) := by
    rw [← hs']
    rfl
  have hleases : s'.leases = lease :: s.leases := by rw [← hs']; rfl
  have hself : s'.stages t = .running lease insertedAt s.clock := by
    rw [hstages, Function.update_self]
  have hother (t' : Task) (hne : t' ≠ t) : s'.stages t' = s.stages t' := by
    rw [hstages, Function.update_of_ne hne]
  -- whoever has counted this host, or inserted a lease of it, would hold the lock
  have halone (t' : Task) (hne : t' ≠ t) (host : Text)
      (hhost : (s.stages t').lockedHost = some host) : lease.host ≠ host := by
    rintro rfl
    rw [hi.locks t' lease.host hhost] at hlocked
    exact hne (Option.some.inj hlocked)
  refine ⟨fun t' host hhost => ?_, fun t' lease' ht' => ?_, fun t₁ t₂ lease₁ lease₂ h₁ h₂ hid => ?_,
    fun t' lease' insertedAt' ht' => ?_, fun t' lease' insertedAt' since ht' => ?_,
    fun t' host active ht' => ?_, fun host => ?_, fun row hrow => ?_⟩
  · by_cases hne : t' = t
    · rw [hne, hself] at hhost
      cases hhost
    · rw [hother t' hne] at hhost
      rw [← hs']
      exact locks_unlock (s := s) _ t' hne (hi.locks t' host hhost)
  · rw [← hs']
    by_cases hne : t' = t
    · rw [hne, hself] at ht'
      obtain rfl := Option.some.inj ht'
      exact hi.issued t lease hmine
    · rw [hother t' hne] at ht'
      exact hi.issued t' lease' ht'
  · have hsame (t' : Task) (lease' : Lease) (h' : (s'.stages t').lease = some lease') :
        (s.stages t').lease = some lease' := by
      by_cases hne : t' = t
      · rw [hne, hself] at h'
        rw [hne, hmine]
        exact h'
      · rwa [hother t' hne] at h'
    exact hi.distinct t₁ t₂ lease₁ lease₂ (hsame t₁ lease₁ h₁) (hsame t₂ lease₂ h₂) hid
  · by_cases hne : t' = t
    · rw [hne, hself] at ht'
      cases ht'
    · rw [hother t' hne] at ht'
      obtain ⟨hexpires', hmost', -⟩ := hi.inserted t' lease' insertedAt' ht'
      have hatMost := atMost_commit hstages hmost'
      rw [if_neg (halone t' hne lease'.host (by rw [ht']; rfl))] at hatMost
      exact ⟨hexpires', hatMost, hcap⟩
  · rw [hleases]
    by_cases hne : t' = t
    · rw [hne, hself] at ht'
      obtain ⟨rfl, rfl, -⟩ := Stage.running.inj ht'
      exact ⟨List.mem_cons_self, hexpires⟩
    · rw [hother t' hne] at ht'
      obtain ⟨hmem, hexpires'⟩ := hi.running t' lease' insertedAt' since ht'
      exact ⟨List.mem_cons_of_mem _ hmem, hexpires'⟩
  · by_cases hne : t' = t
    · rw [hne, hself] at ht'
      cases ht'
    · rw [hother t' hne] at ht'
      have hatMost := atMost_commit hstages (hi.counted t' host active ht')
      rwa [if_neg (halone t' hne host (by rw [ht']; rfl))] at hatMost
  · by_cases hhost : lease.host = host
    · subst hhost
      have hatMost := atMost_commit hstages hmost
      rw [if_pos rfl] at hatMost
      exact fun tasks htasks => (hatMost tasks htasks).trans (by omega)
    · have hatMost := atMost_commit hstages (hi.bounded host)
      rwa [if_neg hhost] at hatMost
  · rw [hleases] at hrow
    rw [← hs']
    rcases List.mem_cons.mp hrow with rfl | hrow
    · exact .inr ⟨t, by rw [hs', hself]; rfl⟩
    · rcases hi.accounted row hrow with hleft | ⟨t', ht'⟩
      · exact .inl hleft
      · refine .inr ⟨t', ?_⟩
        have hne : t' ≠ t := by
          rintro rfl
          rw [hstage] at ht'
          cases ht'
        rw [hs', hother t' hne]
        exact ht'

theorem step_inv {timeout delay : ℤ} (hsum : timeout + delay ≤ leaseTtl) {op : Op}
    (hi : Inv cap hashtext s) (htimely : Timely timeout s) (hprompt : Prompt delay s)
    (h : Step cap hashtext s op s') : Inv cap hashtext s' := by
  rw [Step] at h
  cases op with
  | tick clock =>
    obtain rfl := Option.some.inj h
    exact ⟨hi.locks, hi.issued, hi.distinct, hi.inserted, hi.running, hi.counted, hi.bounded,
      hi.accounted⟩
  | begin t host =>
    rw [next] at h
    split_ifs at h with hidle
    obtain rfl := Option.some.inj h
    exact begin_inv hi hidle host
  | lock t => exact lock_inv hi h
  | purge t => exact purge_inv hi hsum htimely hprompt h
  | count t => exact count_inv hi hsum htimely hprompt h
  | refuse t => exact refuse_inv hi h
  | insert t => exact insert_inv hi h
  | commit t => exact commit_inv hi h
  | commitLost t => exact commitLost_inv hi h
  | abort t => exact abort_inv hi h
  | finish t => exact finish_inv hi h
  | release t => exact release_inv hi h
  | abandon t => exact abandon_inv hi h

end Steps

/-- A step from a state in which operations and permits are in time. -/
def TimedStep (cap : ℕ) (hashtext : Text → ℤ) (timeout delay : ℤ) (s : State) (op : Op) (s' : State) :
    Prop :=
  (Timely timeout s ∧ Prompt delay s) ∧ Step cap hashtext s op s'

theorem run_inv {timeout delay : ℤ} (hsum : timeout + delay ≤ leaseTtl) {clock : ℤ} {ops : List Op}
    (h : Run (TimedStep cap hashtext timeout delay) (initial clock) ops s) : Inv cap hashtext s :=
  h.preserves (fun _ _ _ hi hstep => step_inv hsum hi hstep.1.1 hstep.1.2 hstep.2) (inv_initial clock)

theorem refuse_spec (h : s.refuse cap t = some s') : s' = (s.unlock t).setStage t .idle := by
  rw [State.refuse] at h
  split at h
  · split_ifs at h
    exact (Option.some.inj h).symm
  · cases h

end Shared

/-- `request_timeout` is at most a minute. -/
def maxConfiguredTimeout : ℤ := 60 * 1000000

/-- How much longer a lease lives than an operation may. -/
def leaseSlack : ℤ := Shared.leaseTtl - maxConfiguredTimeout

namespace Shared

variable {cap : ℕ} {hashtext : Text → ℤ} {s s' : State}

def Op.task : Op → Option Task
  | .tick _ => none
  | .begin t _ | .lock t | .purge t | .count t | .refuse t | .insert t | .commit t | .commitLost t
  | .abort t | .finish t | .release t | .abandon t => some t

/-- A task is moved by its own steps alone. -/
theorem next_stages {op : Op} (h : next cap hashtext s op = some s') {t : Task}
    (hne : op.task ≠ some t) : s'.stages t = s.stages t := by
  have hupdate (t' : Task) (stage : Stage) (ht' : op.task = some t') :
      Function.update s.stages t' stage t = s.stages t :=
    Function.update_of_ne (fun heq => hne (ht'.trans (congrArg some heq.symm))) ..
  cases op with
  | tick clock =>
    obtain rfl := Option.some.inj h
    rfl
  | begin t' host =>
    rw [next] at h
    split_ifs at h
    obtain rfl := Option.some.inj h
    exact hupdate t' _ rfl
  | _ t' =>
    simp only [next, State.lock, State.purge, State.count, State.refuse, State.insert, State.commit,
      State.commitLost, State.abort, State.finish, State.release, State.abandon] at h
    split at h
    all_goals first
      | cases h; done
      | obtain rfl := Option.some.inj h
        exact hupdate t' _ rfl
      | split at h
        · obtain rfl := Option.some.inj h
          exact hupdate t' _ rfl
        · cases h

/-- The operations of some tasks are in time. -/
def inTime (timeout : ℤ) (tasks : List Task) (s : State) : Bool :=
  tasks.all fun t =>
    match s.stages t with
    | .running _ _ since => decide (s.clock ≤ since + timeout)
    | _ => true

def prompt (delay : ℤ) (tasks : List Task) (s : State) : Bool :=
  tasks.all fun t =>
    match s.stages t with
    | .running _ insertedAt since => decide (since < insertedAt + delay)
    | _ => true

theorem timely_of_inTime {timeout : ℤ} {tasks : List Task} (h : inTime timeout tasks s = true)
    (hidle : ∀ t ∉ tasks, s.stages t = .idle) : Timely timeout s := by
  intro t lease insertedAt since hstage
  by_cases ht : t ∈ tasks
  · have hcheck := List.all_eq_true.mp h t ht
    rw [hstage] at hcheck
    exact of_decide_eq_true hcheck
  · rw [hidle t ht] at hstage
    cases hstage

theorem prompt_of_check {delay : ℤ} {tasks : List Task} (h : prompt delay tasks s = true)
    (hidle : ∀ t ∉ tasks, s.stages t = .idle) : Prompt delay s := by
  intro t lease insertedAt since hstage
  by_cases ht : t ∈ tasks
  · have hcheck := List.all_eq_true.mp h t ht
    rw [hstage] at hcheck
    exact of_decide_eq_true hcheck
  · rw [hidle t ht] at hstage
    cases hstage

/-- A step of one of some tasks, from a state that has been checked. -/
def checked (cap : ℕ) (hashtext : Text → ℤ) (check : State → Bool) (tasks : List Task) (s : State)
    (op : Op) : Option State :=
  if check s = true ∧ op.task.all (fun t => decide (t ∈ tasks)) = true then next cap hashtext s op
  else none

theorem checked_run {check : State → Bool} {tasks : List Task} {clock : ℤ} {ops : List Op}
    (h : Run (fun s op s' => checked cap hashtext check tasks s op = some s') (initial clock) ops s) :
    (∀ t ∉ tasks, s.stages t = .idle) ∧
      Run (fun s op s' => (check s = true ∧ ∀ t ∉ tasks, s.stages t = .idle) ∧
        Step cap hashtext s op s') (initial clock) ops s := by
  induction h with
  | nil => exact ⟨fun _ _ => rfl, .nil⟩
  | @snoc ops s s' op run last ih =>
    rw [checked] at last
    split_ifs at last with hguard
    refine ⟨fun t ht => ?_, .snoc ih.2 ⟨⟨hguard.1, ih.1⟩, last⟩⟩
    rw [next_stages last, ih.1 t ht]
    intro htask
    rw [htask] at hguard
    exact ht (of_decide_eq_true hguard.2)

end Shared

section Samples
open Shared

def sampleHost : Text := ['a']

/-- A task acquires a lease for the host. -/
def acquireOps (t : Task) : List Op :=
  [.begin t sampleHost, .lock t, .purge t, .count t, .insert t]

def sampleCheck (s : State) : Bool :=
  inTime maxConfiguredTimeout [0] s && prompt leaseSlack [0] s

def sampleOps : List Op := acquireOps 0 ++ [.commit 0, .tick 50000000]

def sampleState : State :=
  (sampleOps.foldlM (checked 1 (fun _ => 0) sampleCheck [0]) (initial 0)).getD (initial 0)

def sampleLocal : Local.State :=
  ([Local.Op.acquire sampleHost (sampleHost, 0)].foldlM (Local.next 1) Local.initial).getD Local.initial

/-- The first commit takes twenty seconds, so that its lease expires before its operation ends. -/
def lateOps : List Op :=
  acquireOps 0 ++ [.tick 20000000, .commit 0, .tick 76000000] ++ acquireOps 1 ++ [.commit 1]

def lateState : State :=
  (lateOps.foldlM (checked 1 (fun _ => 0) (inTime maxConfiguredTimeout [0, 1]) [0, 1])
    (initial 0)).getD (initial 0)

/-- The task of the second acquire has not been told of its commit. -/
def lostState : State :=
  ((acquireOps 0 ++ [Op.commitLost 0]).foldlM (checked 1 (fun _ => 0) (fun _ => true) [0])
    (initial 0)).getD (initial 0)

end Samples

end Rustodon.Remote
