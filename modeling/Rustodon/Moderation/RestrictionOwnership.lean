import Rustodon.Moderation.DomainLocks
import Rustodon.Schemes.Stamps

/-! @src mastodon/write_repository/moderation.rs, mastodon/write_repository/purge.rs |
    name:Ownership of restrictions | scheme:stamps | family:moderation

    A restriction tells by its time whose it is. Suspending a domain forgets silences that were set by
    hand, and removing a rule lifts what another rule asks for. In histories without these steps every
    restriction is set by hand, or by a rule that is still there. -/

namespace Rustodon.Moderation
open Schemes.Utf8 Schemes.Checked Schemes.Runs Schemes.Stamps
open Remote

/-! ### Histories of restrictions by hand -/

/-- A state with the restrictions that were set by hand, as accounts and times. -/
structure Tracked where
  state : State
  silences : List (ℤ × ℤ)
  suspensions : List (ℤ × ℤ)
  deriving DecidableEq

def Op.silences (now : ℤ) : Op → List (ℤ × ℤ)
  | .silence accountId => [(accountId, now)]
  | _ => []

def Op.suspensions (now : ℤ) : Op → List (ℤ × ℤ)
  | .suspend accountId => [(accountId, now)]
  | _ => []

variable (env : Env)

def Tracked.next (tracked : Tracked) (now : ℤ) (op : Op) : Tracked :=
  match op.apply env now tracked.state with
  | .ok state =>
    ⟨state, op.silences now ++ tracked.silences, op.suspensions now ++ tracked.suspensions⟩
  | .error _ => tracked

/-- What accounts start with counts as set by hand. -/
def Tracked.initial (accounts : List RemoteAccount) : Tracked where
  state := State.initial accounts
  silences := accounts.filterMap fun account => account.silencedAt.map fun t => (account.id, t)
  suspensions := accounts.filterMap fun account => account.suspendedAt.map fun t => (account.id, t)

theorem Tracked.next_state (tracked : Tracked) (now : ℤ) (op : Op) :
    (tracked.next env now op).state = Moderation.next env tracked.state now op := by
  rw [Tracked.next, Moderation.next]
  split <;> simp [*]

/-! ### The steps that keep ownership -/

/-- A time at which no rule was made, and no restriction that accounts have. -/
structure State.Fresh (state : State) (now : ℤ) : Prop where
  blocks : ∀ block ∈ state.blocks, block.createdAt ≠ now
  accounts : ∀ account ∈ state.accounts, account.silencedAt ≠ some now ∧ account.suspendedAt ≠ some now

/-- As strict as a rule of this severity asks for. -/
def RestrictedAs (severity : Option ℤ) (silencedAt suspendedAt : Option ℤ) : Prop :=
  (severity = some 0 → silencedAt.isSome = true ∨ suspendedAt.isSome = true) ∧
    (severity = some 1 → suspendedAt.isSome = true)

/-- No account that the suspension would reach has a silence that was set by hand. -/
def KeepsSilences (tracked : Tracked) (request : BlockRequest) : Prop :=
  request.authorized = true → request.severity = 1 →
    ∀ domain, normalizeDomainBlockDomain env request.domain = .ok domain →
      ∀ account ∈ tracked.state.accounts, affects env domain account = true →
        account.suspendedAt = none → ∀ t, (account.id, t) ∉ tracked.silences

/-- The accounts that other rules are about are restricted by something else than this rule. -/
def KeepsRules (tracked : Tracked) (authorized : Bool) (input : Text) : Prop :=
  authorized = true → ∀ domain, normalizeDomainBlockDomain env input = .ok domain →
    ∀ block ∈ tracked.state.blocks, block.domain = domain →
      ∀ account ∈ tracked.state.accounts, affects env domain account = true →
        ∀ other ∈ tracked.state.blocks, other.id ≠ block.id → affects env other.domain account = true →
          RestrictedAs other.severity (cleared block.createdAt account.silencedAt)
            (cleared block.createdAt account.suspendedAt)

/-- The condition on a step, and on the state before it. -/
def Keeps (tracked : Tracked) (now : ℤ) : Op → Prop
  | .setDomainBlock request => tracked.state.Fresh now ∧ KeepsSilences env tracked request
  | .unblockDomain authorized domain => KeepsRules env tracked authorized domain
  | .silence _ | .suspend _ => tracked.state.Fresh now

/-- A step that meets the condition. -/
def KeepingStep (tracked : Tracked) (label : ℤ × Op) (tracked' : Tracked) : Prop :=
  Keeps env tracked label.1 label.2 ∧ tracked' = tracked.next env label.1 label.2

/-! ### The invariant -/

/-- Whose the restrictions of an account are. -/
structure Owned (blocks : List DomainBlock) (silences suspensions : List (ℤ × ℤ))
    (account : RemoteAccount) : Prop where
  silenced : Attributed (fun t => (account.id, t) ∈ silences) DomainBlock.createdAt
    (fun block => affects env block.domain account = true ∧
      (block.severity = some 0 ∨ block.severity = some 1)) blocks account.silencedAt
  suspended : Attributed (fun t => (account.id, t) ∈ suspensions) DomainBlock.createdAt
    (fun block => affects env block.domain account = true ∧ block.severity = some 1) blocks
      account.suspendedAt
  restricted : ∀ block ∈ blocks, affects env block.domain account = true →
    RestrictedAs block.severity account.silencedAt account.suspendedAt

structure Tracked.Owned (tracked : Tracked) : Prop where
  rules : Rules env tracked.state.blocks tracked.state.nextBlockId
  created : (tracked.state.blocks.map DomainBlock.createdAt).Nodup
  ids : (tracked.state.accounts.map RemoteAccount.id).Nodup
  accounts : ∀ account ∈ tracked.state.accounts,
    Moderation.Owned env tracked.state.blocks tracked.silences tracked.suspensions account

variable {env} {account : RemoteAccount} {domain : Text} {severity createdAt now : ℤ}
  {blocks blocks' : List DomainBlock} {silences suspensions : List (ℤ × ℤ)} {tracked tracked' : Tracked}

/-! ### One account -/

/-- What clearing the restrictions of a rule does to an account. -/
def clearAccount (env : Env) (domain : Text) (createdAt : ℤ) (account : RemoteAccount) : RemoteAccount :=
  if affects env domain account then
    { account with
      silencedAt := cleared createdAt account.silencedAt
      suspendedAt := cleared createdAt account.suspendedAt
      suspensionOrigin := if account.suspendedAt = some createdAt then none else account.suspensionOrigin }
  else account

/-- What applying a rule does to an account. -/
def restrictAccount (env : Env) (domain : Text) (severity createdAt : ℤ) (account : RemoteAccount) :
    RemoteAccount :=
  if affects env domain account then
    if severity = 0 then { account with silencedAt := account.silencedAt.or (some createdAt) }
    else if severity = 1 ∧ account.suspendedAt = none then
      { account with silencedAt := none, suspendedAt := some createdAt, suspensionOrigin := some 0 }
    else account
  else account

/-- Rules look at the domain of an account alone. -/
@[simp] theorem affects_with (silencedAt suspendedAt suspensionOrigin : Option ℤ) :
    affects env domain ⟨account.id, account.domain, silencedAt, suspendedAt, suspensionOrigin⟩ =
      affects env domain account := rfl

@[simp] theorem clearAccount_id : (clearAccount env domain createdAt account).id = account.id := by
  rw [clearAccount]
  split <;> rfl

@[simp] theorem restrictAccount_id :
    (restrictAccount env domain severity createdAt account).id = account.id := by
  rw [restrictAccount]
  split_ifs <;> rfl

theorem clearRestrictions_eq (accounts : List RemoteAccount) :
    clearRestrictions env domain createdAt accounts = accounts.map (clearAccount env domain createdAt) := by
  rw [clearRestrictions, updateAccounts, updateAccounts, List.map_map]
  refine List.map_congr_left fun account _ => ?_
  rw [Function.comp, clearAccount]
  by_cases haffects : affects env domain account = true
  · by_cases hsilenced : account.silencedAt = some createdAt
    · by_cases hsuspended : account.suspendedAt = some createdAt
      · simp [haffects, hsilenced, hsuspended, cleared]
      · simp [haffects, hsilenced, hsuspended, cleared]
    · by_cases hsuspended : account.suspendedAt = some createdAt
      · simp [haffects, hsilenced, hsuspended, cleared]
      · simp [haffects, hsilenced, hsuspended, cleared]
  · simp [haffects]

theorem applyRestrictions_ok {accounts accounts' : List RemoteAccount}
    (h : applyDomainAccountRestrictions env domain severity createdAt accounts = .ok accounts') :
    accounts' = accounts.map (restrictAccount env domain severity createdAt) := by
  rw [applyDomainAccountRestrictions] at h
  split_ifs at h with hsilence hsuspend hnoop
  · rw [← Except.ok.inj h, updateAccounts]
    refine List.map_congr_left fun account _ => ?_
    rw [restrictAccount, if_pos hsilence]
    by_cases haffects : affects env domain account = true
    · obtain ⟨id, accountDomain, silencedAt, suspendedAt, suspensionOrigin⟩ := account
      cases silencedAt with
      | none => simp [haffects]
      | some t => simp [haffects]
    · simp [haffects]
  · rw [← Except.ok.inj h, updateAccounts]
    refine List.map_congr_left fun account _ => ?_
    rw [restrictAccount, if_neg hsilence]
    by_cases haffects : affects env domain account = true
    · by_cases hnone : account.suspendedAt = none
      · simp [haffects, hnone, hsuspend]
      · simp [haffects, hnone, Option.isNone_iff_eq_none]
    · simp [haffects]
  · rw [← Except.ok.inj h]
    conv_lhs => rw [← List.map_id accounts]
    refine List.map_congr_left fun account _ => ?_
    simp [restrictAccount, hsilence, hsuspend]

theorem RestrictedAs.mono {severity : Option ℤ} {silencedAt suspendedAt silencedAt' suspendedAt' : Option ℤ}
    (h : RestrictedAs severity silencedAt suspendedAt)
    (hsilenced : silencedAt.isSome = true → silencedAt'.isSome = true ∨ suspendedAt'.isSome = true)
    (hsuspended : suspendedAt.isSome = true → suspendedAt'.isSome = true) :
    RestrictedAs severity silencedAt' suspendedAt' :=
  ⟨fun hzero => (h.1 hzero).elim hsilenced fun hsome => .inr (hsuspended hsome),
    fun hone => hsuspended (h.2 hone)⟩

/-- A rule is applied, that is the only new one. -/
theorem Owned.restrict {block : DomainBlock} (h : Owned env blocks silences suspensions account)
    (hmem : block ∈ blocks') (hblock : block.domain = domain ∧ block.severity = some severity)
    (hblocks : ∀ other ∈ blocks', other = block ∨ other ∈ blocks)
    (hsilenced : Attributed (fun t => (account.id, t) ∈ silences) DomainBlock.createdAt
      (fun block => affects env block.domain account = true ∧
        (block.severity = some 0 ∨ block.severity = some 1)) blocks' account.silencedAt)
    (hsuspended : Attributed (fun t => (account.id, t) ∈ suspensions) DomainBlock.createdAt
      (fun block => affects env block.domain account = true ∧ block.severity = some 1) blocks'
        account.suspendedAt)
    (hkeeps : affects env domain account = true → severity = 1 → account.suspendedAt = none →
      ∀ t, (account.id, t) ∉ silences) :
    Owned env blocks' silences suspensions (restrictAccount env domain severity block.createdAt account) := by
  obtain ⟨hdomain, hseverity⟩ := hblock
  have hsame (other : DomainBlock) (hother : other ∈ blocks') (haffects : affects env domain account ≠ true)
      (hrule : affects env other.domain account = true) :
      RestrictedAs other.severity account.silencedAt account.suspendedAt := by
    rcases hblocks other hother with rfl | hold
    · rw [hdomain] at hrule
      exact absurd hrule haffects
    · exact h.restricted other hold hrule
  rw [restrictAccount]
  split
  · rename_i haffects
    split
    · -- A silence.
      rename_i hzero
      refine ⟨?_, hsuspended, fun other hother hrule => ?_⟩
      · cases hvalue : account.silencedAt with
        | none =>
          rw [hvalue] at hsilenced
          exact hsilenced.set hmem ⟨hdomain ▸ haffects, .inl (hzero ▸ hseverity)⟩
        | some t =>
          rw [hvalue] at hsilenced
          exact hsilenced
      · rcases hblocks other hother with rfl | hold
        · refine ⟨fun _ => .inl (by simp), fun hone => ?_⟩
          rw [hseverity, hzero] at hone
          exact absurd hone (by decide)
        · exact (h.restricted other hold hrule).mono (fun hsome => .inl (by simp)) id
    · split
      · -- A suspension, of an account that has none.
        rename_i hone
        obtain ⟨hone, hnone⟩ := hone
        rw [hnone] at hsuspended
        refine ⟨hkeeps haffects hone hnone, ?_, fun other hother hrule => ?_⟩
        · exact hsuspended.set hmem ⟨hdomain ▸ haffects, hone ▸ hseverity⟩
        · exact ⟨fun _ => .inr rfl, fun _ => rfl⟩
      · rename_i hzero hone
        refine ⟨hsilenced, hsuspended, fun other hother hrule => ?_⟩
        rcases hblocks other hother with rfl | hold
        · refine ⟨fun hsilence => absurd (Option.some.inj (hseverity.symm.trans hsilence)) hzero,
            fun hsuspend => ?_⟩
          have hsome : account.suspendedAt ≠ none := fun hnone =>
            hone ⟨Option.some.inj (hseverity.symm.trans hsuspend), hnone⟩
          exact Option.isSome_iff_ne_none.mpr hsome
        · exact h.restricted other hold hrule
  · rename_i haffects
    exact ⟨hsilenced, hsuspended, fun other hother hrule => hsame other hother haffects hrule⟩

/-- What a rule may be changed to. -/
theorem stricter_severity {rejectMedia rejectReports : Bool} {block : DomainBlock}
    (hseverity : 0 ≤ severity ∧ severity ≤ 2)
    (h : domainBlockIsStricter severity rejectMedia rejectReports block = true) :
    severity = 1 ∨ (block.severity = some 0 ∧ severity = 0) ∨
      (block.severity = some 2 ∧ (severity = 0 ∨ severity = 2)) := by
  rw [domainBlockIsStricter] at h
  split at h
  · exact .inl ‹_›
  split at h
  · cases h
  rename_i hone _ existing hexisting
  split_ifs at h with hrange hsuspended hsilenced
  rw [hexisting]
  simp only [Option.some.injEq]
  omega

/-- A rule that is not to suspend is cleared and applied, which is no more than applying it. -/
theorem Owned.restrict_clear {block : DomainBlock} (h : Owned env blocks silences suspensions account)
    (hmem : block ∈ blocks) (hunique : ∀ other ∈ blocks, other.createdAt = block.createdAt → other = block)
    (hseverity : (block.severity = some 0 ∧ severity = 0) ∨
      (block.severity = some 2 ∧ (severity = 0 ∨ severity = 2))) :
    restrictAccount env domain severity block.createdAt (clearAccount env domain block.createdAt account) =
      restrictAccount env domain severity block.createdAt account := by
  have hsuspended : account.suspendedAt ≠ some block.createdAt := by
    intro heq
    have howned := h.suspended
    rw [heq] at howned
    obtain ⟨-, other, hother, hcreated, -, hone⟩ := howned.owned hmem
    rw [hunique other hother hcreated] at hone
    rcases hseverity with ⟨hzero, -⟩ | ⟨htwo, -⟩
    · exact absurd (hzero.symm.trans hone) (by decide)
    · exact absurd (htwo.symm.trans hone) (by decide)
  rw [clearAccount]
  split
  · rename_i haffects
    by_cases hzero : severity = 0
    · simp only [restrictAccount, affects_with, haffects, if_true, hzero]
      have hcleared : cleared block.createdAt account.suspendedAt = account.suspendedAt :=
        if_neg hsuspended
      rw [hcleared]
      by_cases hsilenced : account.silencedAt = some block.createdAt
      · rw [hsilenced, cleared, if_pos rfl]
        rfl
      · rw [cleared, if_neg hsilenced]
    · have htwo : block.severity = some 2 := by
        rcases hseverity with ⟨-, heq⟩ | ⟨htwo, -⟩
        · exact absurd heq hzero
        · exact htwo
      have hsilenced : account.silencedAt ≠ some block.createdAt := by
        intro heq
        have howned := h.silenced
        rw [heq] at howned
        obtain ⟨-, other, hother, hcreated, -, hrule⟩ := howned.owned hmem
        rw [hunique other hother hcreated, htwo] at hrule
        exact absurd hrule (by decide)
      rw [cleared, if_neg hsilenced, cleared, if_neg hsuspended]
  · rfl

/-- A rule is removed. -/
theorem Owned.unblock {block : DomainBlock} (h : Owned env blocks silences suspensions account)
    (hmem : block ∈ blocks) (hunique : ∀ other ∈ blocks, other.createdAt = block.createdAt → other = block)
    (hids : ∀ other ∈ blocks, other.id = block.id → other = block)
    (hkeeps : affects env block.domain account = true → ∀ other ∈ blocks, other.id ≠ block.id →
      affects env other.domain account = true →
        RestrictedAs other.severity (cleared block.createdAt account.silencedAt)
          (cleared block.createdAt account.suspendedAt)) :
    Owned env (blocks.filter fun other => decide (other.id ≠ block.id)) silences suspensions
      (clearAccount env block.domain block.createdAt account) := by
  have hother : ∀ other ∈ blocks, other.createdAt ≠ block.createdAt →
      decide (other.id ≠ block.id) = true :=
    fun other hother hne => decide_eq_true fun heq => hne (by rw [hids other hother heq])
  have hcleared (value : Option ℤ) : cleared block.createdAt value ≠ some block.createdAt :=
    fun heq => (cleared_eq_some heq).2 rfl
  rw [clearAccount]
  split
  · rename_i haffects
    refine ⟨(h.silenced.cleared hmem).remove hother (hcleared _),
      (h.suspended.cleared hmem).remove hother (hcleared _), fun other hother hrule => ?_⟩
    obtain ⟨hother, hne⟩ := List.mem_filter.mp hother
    exact hkeeps haffects other hother (of_decide_eq_true hne) hrule
  · rename_i haffects
    have hsilenced : account.silencedAt ≠ some block.createdAt := by
      intro heq
      have howned := h.silenced
      rw [heq] at howned
      obtain ⟨-, other, hother, hcreated, hrule, -⟩ := howned.owned hmem
      rw [hunique other hother hcreated] at hrule
      exact haffects hrule
    have hsuspended : account.suspendedAt ≠ some block.createdAt := by
      intro heq
      have howned := h.suspended
      rw [heq] at howned
      obtain ⟨-, other, hother, hcreated, hrule, -⟩ := howned.owned hmem
      rw [hunique other hother hcreated] at hrule
      exact haffects hrule
    exact ⟨h.silenced.remove hother hsilenced, h.suspended.remove hother hsuspended,
      fun other hother => h.restricted other (List.mem_of_mem_filter hother)⟩

theorem Owned.silence (h : Owned env blocks silences suspensions account)
    (hfresh : ∀ block ∈ blocks, block.createdAt ≠ now) :
    Owned env blocks ((account.id, now) :: silences) suspensions { account with silencedAt := some now } :=
  ⟨attributed_manual List.mem_cons_self hfresh, h.suspended, fun other hother hrule =>
    (h.restricted other hother hrule).mono (fun _ => .inl rfl) id⟩

theorem Owned.suspend (h : Owned env blocks silences suspensions account)
    (hfresh : ∀ block ∈ blocks, block.createdAt ≠ now) :
    Owned env blocks silences ((account.id, now) :: suspensions)
      { account with suspendedAt := some now, suspensionOrigin := some 0 } :=
  ⟨h.silenced, attributed_manual List.mem_cons_self hfresh, fun other hother hrule =>
    (h.restricted other hother hrule).mono (fun hsome => .inl hsome) fun _ => rfl⟩

/-- Restrictions of another account. -/
theorem Owned.of_ne {accountId : ℤ} (h : Owned env blocks silences suspensions account)
    (hne : account.id ≠ accountId) :
    Owned env blocks ((accountId, now) :: silences) suspensions account ∧
      Owned env blocks silences ((accountId, now) :: suspensions) account := by
  have hmem (manual : List (ℤ × ℤ)) (t : ℤ) :
      (account.id, t) ∈ (accountId, now) :: manual ↔ (account.id, t) ∈ manual := by
    simp [hne]
  exact ⟨⟨h.silenced.congr (hmem silences), h.suspended, h.restricted⟩,
    ⟨h.silenced, h.suspended.congr (hmem suspensions), h.restricted⟩⟩

/-! ### Steps -/

theorem eq_of_created (h : tracked.Owned env) {block other : DomainBlock}
    (hblock : block ∈ tracked.state.blocks) (hother : other ∈ tracked.state.blocks)
    (hcreated : other.createdAt = block.createdAt) : other = block :=
  List.inj_on_of_nodup_map h.created hother hblock hcreated

theorem eq_of_id (h : tracked.Owned env) {block other : DomainBlock}
    (hblock : block ∈ tracked.state.blocks) (hother : other ∈ tracked.state.blocks)
    (hid : other.id = block.id) : other = block :=
  List.inj_on_of_nodup_map h.rules.ids hother hblock hid

/-- Accounts that are changed one by one, and keep their ids. -/
theorem ids_map {accounts : List RemoteAccount} {f : RemoteAccount → RemoteAccount}
    (hids : (accounts.map RemoteAccount.id).Nodup) (hf : ∀ account, (f account).id = account.id) :
    ((accounts.map f).map RemoteAccount.id).Nodup := by
  rw [List.map_map, funext fun account => show (RemoteAccount.id ∘ f) account = account.id from hf account]
  exact hids

theorem owned_insertBlock (h : tracked.Owned env) {request : BlockRequest} {state : State} {input : Text}
    (hnormalize : normalizeDomainBlockDomain env input = .ok domain)
    (hfresh : tracked.state.Fresh now)
    (hkeeps : ∀ account ∈ tracked.state.accounts, affects env domain account = true →
      request.severity = 1 → account.suspendedAt = none → ∀ t, (account.id, t) ∉ tracked.silences)
    (hinsert : insertBlock env now tracked.state domain request = .ok state) :
    Tracked.Owned env ⟨state, tracked.silences, tracked.suspensions⟩ := by
  obtain ⟨hnew, accounts, happly, rfl⟩ := insertBlock_ok hinsert
  obtain rfl := applyRestrictions_ok happly
  refine ⟨Rules.append h.rules hnormalize hnew, ?_, ids_map h.ids fun account => restrictAccount_id, ?_⟩
  · rw [List.map_append, List.map_singleton]
    refine List.nodup_append.mpr ⟨h.created, List.nodup_singleton _, fun t ht _ hsame heq => ?_⟩
    obtain ⟨other, hother, rfl⟩ := List.mem_map.mp ht
    exact hfresh.blocks other hother (heq.trans (List.mem_singleton.mp hsame))
  · intro account' haccount'
    obtain ⟨account, haccount, rfl⟩ := List.mem_map.mp haccount'
    have howned := h.accounts account haccount
    obtain ⟨hsilenced, hsuspended⟩ := hfresh.accounts account haccount
    refine howned.restrict (List.mem_append_right _ List.mem_cons_self) ⟨rfl, rfl⟩ (fun other hother => ?_)
      (howned.silenced.insert fun t ht heq => hsilenced (ht.trans (congrArg some heq.symm)))
      (howned.suspended.insert fun t ht heq => hsuspended (ht.trans (congrArg some heq.symm)))
      (hkeeps account haccount)
    rcases List.mem_append.mp hother with hother | hother
    · exact .inr hother
    · exact .inl (List.mem_singleton.mp hother)

theorem owned_updateBlock (h : tracked.Owned env) {request : BlockRequest} {state : State}
    {block : DomainBlock} (hmem : block ∈ tracked.state.blocks) (hdomain : block.domain = domain)
    (hrange : 0 ≤ request.severity ∧ request.severity ≤ 2)
    (hstricter : domainBlockIsStricter request.severity request.rejectMedia request.rejectReports block = true)
    (hkeeps : ∀ account ∈ tracked.state.accounts, affects env domain account = true →
      request.severity = 1 → account.suspendedAt = none → ∀ t, (account.id, t) ∉ tracked.silences)
    (hupdate : updateBlock env now tracked.state domain request block = .ok state) :
    Tracked.Owned env ⟨state, tracked.silences, tracked.suspensions⟩ := by
  obtain ⟨accounts, happly, rfl⟩ := updateBlock_ok hupdate
  have hseverity := stricter_severity hrange hstricter
  have hupdated (other : DomainBlock) (hother : other ∈ tracked.state.blocks)
      (hid : other.id = block.id) : other = block := eq_of_id h hmem hother hid
  have haccounts : accounts =
      tracked.state.accounts.map (restrictAccount env domain request.severity block.createdAt) := by
    rw [applyRestrictions_ok happly]
    split
    · rename_i hone
      rw [clearRestrictions_eq, List.map_map]
      refine List.map_congr_left fun account haccount => ?_
      exact (h.accounts account haccount).restrict_clear hmem
        (fun other hother hcreated => eq_of_created h hmem hother hcreated) (hseverity.resolve_left hone)
    · rfl
  rw [haccounts]
  refine ⟨h.rules.map (fun other => ?_) fun other => ?_, ?_, ids_map h.ids fun account => restrictAccount_id, ?_⟩
  · split <;> rfl
  · split <;> rfl
  · have hcreated : (DomainBlock.createdAt ∘ fun other : DomainBlock =>
        if other.id = block.id then updatedBlock now request other else other) = DomainBlock.createdAt := by
      funext other
      rw [Function.comp]
      split <;> rfl
    rw [List.map_map, hcreated]
    exact h.created
  · intro account' haccount'
    obtain ⟨account, haccount, rfl⟩ := List.mem_map.mp haccount'
    have howned := h.accounts account haccount
    have hcreated (other : DomainBlock) :
        (if other.id = block.id then updatedBlock now request other else other).createdAt =
          other.createdAt := by
      split <;> rfl
    have hnew : updatedBlock now request block ∈ tracked.state.blocks.map fun other =>
        if other.id = block.id then updatedBlock now request other else other :=
      List.mem_map.mpr ⟨block, hmem, if_pos rfl⟩
    change Moderation.Owned env _ _ _
      (restrictAccount env domain request.severity (updatedBlock now request block).createdAt account)
    refine howned.restrict hnew ⟨hdomain, rfl⟩ (fun other hother => ?_)
      (howned.silenced.map hcreated fun other hother howns => ?_)
      (howned.suspended.map hcreated fun other hother howns => ?_) (hkeeps account haccount)
    · obtain ⟨before, hbefore, rfl⟩ := List.mem_map.mp hother
      split
      · rename_i hid
        rw [hupdated before hbefore hid]
        exact .inl rfl
      · exact .inr hbefore
    · split
      · rename_i hid
        obtain rfl := hupdated other hother hid
        refine ⟨howns.1, ?_⟩
        rcases hseverity with hone | ⟨-, hzero⟩ | ⟨htwo, -⟩
        · exact .inr (congrArg some hone)
        · exact .inl (congrArg some hzero)
        · rw [htwo] at howns
          exact absurd howns.2 (by decide)
      · exact howns
    · split
      · rename_i hid
        obtain rfl := hupdated other hother hid
        refine ⟨howns.1, ?_⟩
        rcases hseverity with hone | ⟨hzero, -⟩ | ⟨htwo, -⟩
        · exact congrArg some hone
        · exact absurd (hzero.symm.trans howns.2) (by decide)
        · exact absurd (htwo.symm.trans howns.2) (by decide)
      · exact howns

theorem owned_step (laws : PolicyLaws env) {label : ℤ × Op} (h : tracked.Owned env)
    (hstep : KeepingStep env tracked label tracked') : tracked'.Owned env := by
  obtain ⟨now, op⟩ := label
  obtain ⟨hkeeps, rfl⟩ := hstep
  have hplain (block : DomainBlock) (hblock : block ∈ tracked.state.blocks) : IsPlain block.domain := by
    obtain ⟨input, hnormalize⟩ := h.rules.normalized block hblock
    exact (ruleDomain_of_normalize laws hnormalize).plain
  rw [Tracked.next]
  split
  swap
  · exact h
  rename_i state happly
  cases op with
  | setDomainBlock request =>
    obtain ⟨hfresh, hkeeps⟩ := hkeeps
    obtain ⟨hrange, hauthorized, domain, hnormalize, hset⟩ := setDomainBlock_ok happly
    have hsilences : ∀ account ∈ tracked.state.accounts, affects env domain account = true →
        request.severity = 1 → account.suspendedAt = none → ∀ t, (account.id, t) ∉ tracked.silences :=
      fun account haccount haffects hone hnone =>
        hkeeps hauthorized hone domain hnormalize account haccount haffects hnone
    rcases hset with ⟨block, hexisting, hstricter, hsame, hupdate⟩ | hinsert
    · have hmem : block ∈ tracked.state.blocks := (List.mem_filter.mp (List.argmax_mem hexisting)).1
      have hdomain : block.domain = domain := by
        have hlower := eqIgnoreAsciiCase_iff.mp hsame
        rw [toAsciiLowercase_plain (hplain block hmem),
          toAsciiLowercase_plain (ruleDomain_of_normalize laws hnormalize).plain] at hlower
        exact hlower
      exact owned_updateBlock h hmem hdomain hrange hstricter hsilences hupdate
    · exact owned_insertBlock h hnormalize hfresh hsilences hinsert
  | unblockDomain authorized input =>
    obtain ⟨hauthorized, domain, hnormalize, block, hmem, hlower, rfl⟩ := unblockDomain_ok happly
    have hdomain : block.domain = domain := by
      rw [laws.lower_plain _ (hplain block hmem),
        laws.lower_plain _ (ruleDomain_of_normalize laws hnormalize).plain] at hlower
      exact hlower
    subst hdomain
    refine ⟨h.rules.filter _, h.created.sublist (List.filter_sublist.map _), ?_, fun account' haccount' => ?_⟩
    · rw [clearRestrictions_eq]
      exact ids_map h.ids fun account => clearAccount_id
    · dsimp only at haccount'
      rw [clearRestrictions_eq] at haccount'
      obtain ⟨account, haccount, rfl⟩ := List.mem_map.mp haccount'
      exact (h.accounts account haccount).unblock hmem
        (fun other hother hcreated => eq_of_created h hmem hother hcreated)
        (fun other hother hid => eq_of_id h hmem hother hid)
        (hkeeps hauthorized block.domain hnormalize block hmem rfl account haccount)
  | silence accountId =>
    obtain rfl := Except.ok.inj happly
    refine ⟨h.rules, h.created, ids_map h.ids fun account => ?_, fun account' haccount' => ?_⟩
    · split <;> rfl
    · obtain ⟨account, haccount, rfl⟩ := List.mem_map.mp haccount'
      split
      · rename_i hid
        obtain rfl := of_decide_eq_true hid
        exact (h.accounts account haccount).silence hkeeps.blocks
      · rename_i hid
        exact ((h.accounts account haccount).of_ne fun heq => hid (decide_eq_true heq)).1
  | suspend accountId =>
    obtain ⟨-, rfl⟩ := suspendAccount_ok happly
    refine ⟨h.rules, h.created, ids_map h.ids fun account => ?_, fun account' haccount' => ?_⟩
    · split <;> rfl
    · obtain ⟨account, haccount, rfl⟩ := List.mem_map.mp haccount'
      split
      · rename_i hid
        obtain rfl := of_decide_eq_true hid
        exact (h.accounts account haccount).suspend hkeeps.blocks
      · rename_i hid
        exact ((h.accounts account haccount).of_ne fun heq => hid (decide_eq_true heq)).2

/-! ### Runs -/

theorem owned_initial {accounts : List RemoteAccount} (hids : (accounts.map RemoteAccount.id).Nodup) :
    (Tracked.initial accounts).Owned env := by
  refine ⟨⟨by simp [Tracked.initial, State.initial], List.nodup_nil, List.nodup_nil,
    by simp [Tracked.initial, State.initial]⟩, List.nodup_nil, hids, fun account haccount => ?_⟩
  have hmem (f : RemoteAccount → Option ℤ) (t : ℤ) :
      (account.id, t) ∈ (accounts.filterMap fun account => (f account).map fun t => (account.id, t)) ↔
        f account = some t := by
    rw [List.mem_filterMap]
    constructor
    · rintro ⟨other, hother, heq⟩
      obtain ⟨t', hvalue, heq⟩ := Option.map_eq_some_iff.mp heq
      obtain ⟨hid, rfl⟩ := Prod.mk.inj heq
      rw [← List.inj_on_of_nodup_map hids hother haccount hid]
      exact hvalue
    · intro hvalue
      exact ⟨account, haccount, by rw [hvalue, Option.map_some]⟩
  refine ⟨?_, ?_, fun block hblock => absurd hblock List.not_mem_nil⟩
  · cases hvalue : account.silencedAt with
    | none =>
      intro t ht
      have hsome := (hmem RemoteAccount.silencedAt t).mp ht
      rw [hvalue] at hsome
      cases hsome
    | some t => exact attributed_manual ((hmem RemoteAccount.silencedAt t).mpr hvalue) (by simp [Tracked.initial, State.initial])
  · cases hvalue : account.suspendedAt with
    | none =>
      intro t ht
      have hsome := (hmem RemoteAccount.suspendedAt t).mp ht
      rw [hvalue] at hsome
      cases hsome
    | some t => exact attributed_manual ((hmem RemoteAccount.suspendedAt t).mpr hvalue) (by simp [Tracked.initial, State.initial])

theorem owned_of_run (laws : PolicyLaws env) {accounts : List RemoteAccount} {labels : List (ℤ × Op)}
    (hids : (accounts.map RemoteAccount.id).Nodup)
    (hrun : Run (KeepingStep env) (Tracked.initial accounts) labels tracked) : tracked.Owned env :=
  hrun.preserves (fun _ _ _ howned hstep => owned_step laws howned hstep) (owned_initial hids)

theorem run_state {accounts : List RemoteAccount} {labels : List (ℤ × Op)}
    (hrun : Run (KeepingStep env) (Tracked.initial accounts) labels tracked) :
    Run (Step env) (State.initial accounts) labels tracked.state := by
  induction hrun with
  | nil => exact .nil
  | snoc run last ih =>
    refine .snoc ih ?_
    rw [Step, last.2]
    exact Tracked.next_state env _ _ _

def exampleAccount (id : ℤ) (silencedAt suspendedAt : Option ℤ) : RemoteAccount :=
  ⟨id, exampleHost, silencedAt, suspendedAt, suspendedAt.map fun _ => 0⟩

/-- An account is silenced by hand, and so is its domain for a while, or the domain is suspended. -/
def silenceAndBlock (severity : ℤ) : List (ℤ × Op) :=
  [(5, .silence 1), (6, .setDomainBlock ⟨true, exampleHost, severity, false, false⟩),
    (7, .unblockDomain true exampleHost)]

/-- Two accounts, of which the first is silenced by hand. -/
def silencedFirst : Tracked :=
  ⟨⟨[], [exampleAccount 1 (some 5) none, exampleAccount 2 none none], 1⟩, [(1, 5)], []⟩

/-- The other one is silenced by the rule. -/
def silencedBoth : Tracked :=
  ⟨⟨[⟨1, exampleHost, some 0, false, false, 6, 6⟩],
    [exampleAccount 1 (some 5) none, exampleAccount 2 (some 6) none], 2⟩, [(1, 5)], []⟩

def silencedOnce : Tracked := { silencedFirst with state := { silencedFirst.state with nextBlockId := 2 } }

theorem silenceAndBlock_run : Run (KeepingStep someText)
    (Tracked.initial [exampleAccount 1 none none, exampleAccount 2 none none]) (silenceAndBlock 0)
      silencedOnce := by
  have hsilence : KeepingStep someText
      (Tracked.initial [exampleAccount 1 none none, exampleAccount 2 none none]) (5, .silence 1)
        silencedFirst :=
    ⟨⟨by decide, by decide⟩, by decide⟩
  have hblock : KeepingStep someText silencedFirst
      (6, .setDomainBlock ⟨true, exampleHost, 0, false, false⟩) silencedBoth :=
    ⟨⟨⟨by decide, by decide⟩, fun _ hone => absurd hone (by decide)⟩, by decide⟩
  have hunblock : KeepingStep someText silencedBoth (7, .unblockDomain true exampleHost) silencedOnce := by
    have hsame : ∀ block ∈ silencedBoth.state.blocks, ∀ other ∈ silencedBoth.state.blocks,
        other.id = block.id := by decide
    exact ⟨fun _ domain _ block hblock _ account _ _ other hother hne =>
      absurd (hsame block hblock other hother) hne, by decide⟩
  exact .cons hsilence (.cons hblock (.cons hunblock .nil))

end Rustodon.Moderation
