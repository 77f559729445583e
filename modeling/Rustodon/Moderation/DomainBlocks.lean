import Mathlib.Data.Prod.Lex
import Rustodon.Moderation.DomainPolicy
import Rustodon.Schemes.Checked
import Rustodon.Schemes.Runs

/-! @src mastodon/write_repository/moderation.rs, mastodon/write_repository/purge.rs |
    name:Domain blocks | scheme:labelled runs | family:moderation

    Blocks of domains, and what they do to the accounts of these domains. A restriction does not tell
    whose it is: that of a rule has the time of the rule, and is lifted by it. -/

namespace Rustodon.Moderation
open Schemes.Utf8 Schemes.Checked Schemes.Labels
open Ingest (WriteError Written)
open Remote

/-- A row of `accounts` with a domain. -/
structure RemoteAccount where
  id : ℤ
  domain : Text
  silencedAt : Option ℤ
  suspendedAt : Option ℤ
  suspensionOrigin : Option ℤ
  deriving DecidableEq

structure State where
  blocks : List DomainBlock
  accounts : List RemoteAccount
  nextBlockId : ℤ
  deriving DecidableEq

variable (env : Env)

/-! ### Accounts of a domain -/

/-- `trim(trailing '.' FROM (CASE WHEN left(domain, 1) = '[' THEN split_part(domain, ']', 1) || ']'
    ELSE split_part(domain, ':', 1) END))`. -/
def accountHost (domain : Text) : Text :=
  trimDots (if domain.head? = some '[' then domain.takeWhile (· != ']') ++ [']']
    else domain.takeWhile (· != ':'))

/-- The accounts that a rule on a domain is about. -/
def affects (domain : Text) (account : RemoteAccount) : Bool :=
  underDomain (env.lower (accountHost account.domain)) (env.lower (domainPolicyHostname env domain))

/-- `UPDATE accounts SET … WHERE …`. -/
def updateAccounts (p : RemoteAccount → Bool) (f : RemoteAccount → RemoteAccount)
    (accounts : List RemoteAccount) : List RemoteAccount :=
  accounts.map fun account => if p account then f account else account

/-- What `clear_domain_owned_account_restrictions` does to an account. -/
def clearRestrictions (domain : Text) (createdAt : ℤ) (accounts : List RemoteAccount) :
    List RemoteAccount :=
  updateAccounts (fun account => affects env domain account && decide (account.suspendedAt = some createdAt))
    (fun account => { account with suspendedAt := none, suspensionOrigin := none })
    (updateAccounts
      (fun account => affects env domain account && decide (account.silencedAt = some createdAt))
      (fun account => { account with silencedAt := none }) accounts)

def applyDomainAccountRestrictions (domain : Text) (severity createdAt : ℤ)
    (accounts : List RemoteAccount) : Written (List RemoteAccount) :=
  if severity = 0 then
    .ok (updateAccounts (fun account => affects env domain account && account.silencedAt.isNone)
      (fun account => { account with silencedAt := some createdAt }) accounts)
  else if severity = 1 then
    .ok (updateAccounts (fun account => affects env domain account && account.suspendedAt.isNone)
      (fun account =>
        { account with
          silencedAt := none
          suspendedAt := some createdAt
          suspensionOrigin := some 0 }) accounts)
  else if severity = 2 then .ok accounts
  else .error (.invalidInput "domain block severity is invalid")

/-! ### Rules -/

def domainBlockIsStricter (severity : ℤ) (rejectMedia rejectReports : Bool) (existing : DomainBlock) :
    Bool :=
  if severity = 1 then true
  else
    match existing.severity with
    | none => false
    | some existingSeverity =>
      if existingSeverity < 0 ∨ 2 < existingSeverity then false
      else if existingSeverity = 1 ∧ (severity = 0 ∨ severity = 2) then false
      else if existingSeverity = 0 ∧ severity = 2 then false
      else (rejectMedia || !existing.rejectMedia) && (rejectReports || !existing.rejectReports)

/-- `ORDER BY length(domain) DESC, id DESC` of the rules on the domain and on those above it. -/
def existingBlock (domain : Text) (blocks : List DomainBlock) : Option DomainBlock :=
  (blocks.filter fun block => underDomain (env.lower domain) (env.lower block.domain)).argmax
    fun block => toLex (block.domain.length, block.id)

/-- The rule on the domain itself, if there is one. -/
def exactBlock (domain : Text) (existing : Option DomainBlock) : Option DomainBlock :=
  existing.filter fun block => eqIgnoreAsciiCase block.domain domain

/-- A request to `set_domain_block`. -/
structure BlockRequest where
  authorized : Bool
  domain : Text
  severity : ℤ
  rejectMedia : Bool
  rejectReports : Bool

def updatedBlock (now : ℤ) (request : BlockRequest) (block : DomainBlock) : DomainBlock :=
  { block with
    severity := some request.severity
    rejectMedia := request.rejectMedia
    rejectReports := request.rejectReports
    updatedAt := now }

/-- The rule on a domain that had one. Restrictions that are not to be suspensions are set anew. -/
def updateBlock (now : ℤ) (state : State) (domain : Text) (request : BlockRequest) (block : DomainBlock) :
    Written State := do
  let cleared := if request.severity ≠ 1 then clearRestrictions env domain block.createdAt state.accounts
    else state.accounts
  let accounts ← applyDomainAccountRestrictions env domain request.severity block.createdAt cleared
  .ok { state with
    blocks := state.blocks.map fun other =>
      if other.id = block.id then updatedBlock now request other else other
    accounts := accounts }

/-- The domains of rules are unique. -/
def insertBlock (now : ℤ) (state : State) (domain : Text) (request : BlockRequest) : Written State := do
  if domain ∈ state.blocks.map DomainBlock.domain then .error .conflict
  else
    let accounts ← applyDomainAccountRestrictions env domain request.severity now state.accounts
    .ok
      { blocks := state.blocks ++ [⟨state.nextBlockId, domain, some request.severity,
          request.rejectMedia, request.rejectReports, now, now⟩]
        accounts := accounts
        nextBlockId := state.nextBlockId + 1 }

def setDomainBlock (now : ℤ) (state : State) (request : BlockRequest) : Written State := do
  if request.severity < 0 ∨ 2 < request.severity then
    .error (.invalidInput "domain block severity is invalid")
  else
    let domain ← normalizeDomainBlockDomain env request.domain
    if !request.authorized then .error .unauthorized
    else
      let existing := existingBlock env domain state.blocks
      if existing.any fun block =>
          !domainBlockIsStricter request.severity request.rejectMedia request.rejectReports block then
        .error (.validation "domain block would downgrade an existing rule")
      else
        match exactBlock domain existing with
        | some block => updateBlock env now state domain request block
        | none => insertBlock env now state domain request

def unblockDomain (state : State) (authorized : Bool) (domain : Text) : Written State := do
  let domain ← normalizeDomainBlockDomain env domain
  if !authorized then .error .unauthorized
  else
    match state.blocks.find? fun block => decide (env.lower block.domain = env.lower domain) with
    | none => .error .notFound
    | some block =>
      .ok { state with
        blocks := state.blocks.filter fun other => decide (other.id ≠ block.id)
        accounts := clearRestrictions env domain block.createdAt state.accounts }

/-! ### Restrictions by hand -/

/-- The silence of one account, which overrides what there was. No operation of the source does it. -/
def silenceAccount (now : ℤ) (state : State) (accountId : ℤ) : State :=
  { state with
    accounts := updateAccounts (fun account => decide (account.id = accountId))
      (fun account => { account with silencedAt := some now }) state.accounts }

/-- The suspension of one account, which must not be suspended. -/
def suspendAccount (now : ℤ) (state : State) (accountId : ℤ) : Written State :=
  match state.accounts.find? fun account => decide (account.id = accountId) with
  | none => .error .notFound
  | some account =>
    if account.suspendedAt.isSome then .error (.validation "account is already suspended")
    else
      .ok { state with
        accounts := updateAccounts (fun account => decide (account.id = accountId))
          (fun account => { account with suspendedAt := some now, suspensionOrigin := some 0 })
            state.accounts }

/-! ### Histories -/

inductive Op where
  | setDomainBlock (request : BlockRequest)
  | unblockDomain (authorized : Bool) (domain : Text)
  | silence (accountId : ℤ)
  | suspend (accountId : ℤ)

def Op.apply (now : ℤ) (state : State) : Op → Written State
  | .setDomainBlock request => Moderation.setDomainBlock env now state request
  | .unblockDomain authorized domain => Moderation.unblockDomain env state authorized domain
  | .silence accountId => .ok (silenceAccount now state accountId)
  | .suspend accountId => suspendAccount now state accountId

/-- What fails is rolled back. -/
def next (state : State) (now : ℤ) (op : Op) : State :=
  match op.apply env now state with
  | .ok state' => state'
  | .error _ => state

/-- A step at a time. -/
def Step (state : State) (label : ℤ × Op) (state' : State) : Prop :=
  state' = next env state label.1 label.2

/-- Some accounts, and no rules. -/
def State.initial (accounts : List RemoteAccount) : State := ⟨[], accounts, 1⟩

/-! ### The rules that there can be -/

/-- What holds of the rules: their domains have been normalized, and differ, and so do their ids. -/
structure Rules (blocks : List DomainBlock) (nextBlockId : ℤ) : Prop where
  normalized : ∀ block ∈ blocks, ∃ domain, normalizeDomainBlockDomain env domain = .ok block.domain
  domains : (blocks.map DomainBlock.domain).Nodup
  ids : (blocks.map DomainBlock.id).Nodup
  fresh : ∀ block ∈ blocks, block.id < nextBlockId

variable {env} {state state' : State} {now : ℤ} {domain : Text} {request : BlockRequest}

theorem updateBlock_ok {block : DomainBlock}
    (h : updateBlock env now state domain request block = .ok state') :
    ∃ accounts, applyDomainAccountRestrictions env domain request.severity block.createdAt
        (if request.severity ≠ 1 then clearRestrictions env domain block.createdAt state.accounts
          else state.accounts) = .ok accounts ∧
      state' = { state with
        blocks := state.blocks.map fun other =>
          if other.id = block.id then updatedBlock now request other else other
        accounts := accounts } := by
  obtain ⟨accounts, happly, h⟩ := bind_eq_ok h
  exact ⟨accounts, happly, (Except.ok.inj h).symm⟩

theorem insertBlock_ok (h : insertBlock env now state domain request = .ok state') :
    domain ∉ state.blocks.map DomainBlock.domain ∧
      ∃ accounts, applyDomainAccountRestrictions env domain request.severity now state.accounts =
          .ok accounts ∧
        state' =
          { blocks := state.blocks ++ [⟨state.nextBlockId, domain, some request.severity,
              request.rejectMedia, request.rejectReports, now, now⟩]
            accounts := accounts
            nextBlockId := state.nextBlockId + 1 } := by
  rw [insertBlock] at h
  split at h
  · cases h
  · rename_i hnew
    obtain ⟨accounts, happly, h⟩ := bind_eq_ok h
    exact ⟨hnew, accounts, happly, (Except.ok.inj h).symm⟩

/-- What a rule is set by. -/
theorem setDomainBlock_ok (h : setDomainBlock env now state request = .ok state') :
    (0 ≤ request.severity ∧ request.severity ≤ 2) ∧ request.authorized = true ∧
      ∃ domain, normalizeDomainBlockDomain env request.domain = .ok domain ∧
        ((∃ block, existingBlock env domain state.blocks = some block ∧
            domainBlockIsStricter request.severity request.rejectMedia request.rejectReports block ∧
              eqIgnoreAsciiCase block.domain domain ∧
                updateBlock env now state domain request block = .ok state') ∨
          insertBlock env now state domain request = .ok state') := by
  rw [setDomainBlock] at h
  split at h
  · cases h
  rename_i hseverity
  obtain ⟨domain, hnormalize, h⟩ := bind_eq_ok h
  split at h
  · cases h
  rename_i hauthorized
  dsimp only at h
  split at h
  · cases h
  rename_i hstricter
  refine ⟨by omega, by simpa using hauthorized, domain, hnormalize, ?_⟩
  split at h
  · rename_i block hexact
    obtain ⟨hexisting, hsame⟩ := Option.filter_eq_some_iff.mp hexact
    refine .inl ⟨block, hexisting, ?_, hsame, h⟩
    rw [hexisting] at hstricter
    simpa using hstricter
  · exact .inr h

theorem unblockDomain_ok {authorized : Bool} (h : unblockDomain env state authorized domain = .ok state') :
    authorized = true ∧ ∃ normalized, normalizeDomainBlockDomain env domain = .ok normalized ∧ ∃ block ∈ state.blocks,
      env.lower block.domain = env.lower normalized ∧
        state' = { state with
          blocks := state.blocks.filter fun other => decide (other.id ≠ block.id)
          accounts := clearRestrictions env normalized block.createdAt state.accounts } := by
  obtain ⟨normalized, hnormalize, h⟩ := bind_eq_ok h
  split at h
  · cases h
  rename_i hauthorized
  split at h
  · cases h
  · rename_i block hfind
    refine ⟨by simpa using hauthorized, normalized, hnormalize, block, List.mem_of_find?_eq_some hfind, ?_,
      (Except.ok.inj h).symm⟩
    simpa using List.find?_some hfind

theorem suspendAccount_ok {accountId : ℤ} (h : suspendAccount now state accountId = .ok state') :
    (∃ account, state.accounts.find? (fun account => decide (account.id = accountId)) = some account ∧
      account.suspendedAt = none) ∧
      state' = { state with
        accounts := updateAccounts (fun account => decide (account.id = accountId))
          (fun account => { account with suspendedAt := some now, suspensionOrigin := some 0 })
            state.accounts } := by
  rw [suspendAccount] at h
  split at h
  · cases h
  rename_i account hfind
  split at h
  · cases h
  rename_i hnone
  exact ⟨⟨account, hfind, by simpa using hnone⟩, (Except.ok.inj h).symm⟩

theorem Rules.map {blocks : List DomainBlock} {nextBlockId : ℤ} {f : DomainBlock → DomainBlock}
    (h : Rules env blocks nextBlockId) (hdomain : ∀ block, (f block).domain = block.domain)
    (hid : ∀ block, (f block).id = block.id) : Rules env (blocks.map f) nextBlockId where
  normalized block hblock := by
    obtain ⟨before, hbefore, rfl⟩ := List.mem_map.mp hblock
    rw [hdomain]
    exact h.normalized before hbefore
  domains := by
    rw [List.map_map, funext fun block => show (DomainBlock.domain ∘ f) block = block.domain from
      hdomain block]
    exact h.domains
  ids := by
    rw [List.map_map, funext fun block => show (DomainBlock.id ∘ f) block = block.id from hid block]
    exact h.ids
  fresh block hblock := by
    obtain ⟨before, hbefore, rfl⟩ := List.mem_map.mp hblock
    rw [hid]
    exact h.fresh before hbefore

theorem Rules.filter {blocks : List DomainBlock} {nextBlockId : ℤ} (h : Rules env blocks nextBlockId)
    (p : DomainBlock → Bool) : Rules env (blocks.filter p) nextBlockId where
  normalized block hblock := h.normalized block (List.mem_of_mem_filter hblock)
  domains := h.domains.sublist (List.filter_sublist.map _)
  ids := h.ids.sublist (List.filter_sublist.map _)
  fresh block hblock := h.fresh block (List.mem_of_mem_filter hblock)

theorem Rules.append {blocks : List DomainBlock} {block : DomainBlock} {input : Text}
    (h : Rules env blocks block.id) (hnormalize : normalizeDomainBlockDomain env input = .ok block.domain)
    (hnew : block.domain ∉ blocks.map DomainBlock.domain) :
    Rules env (blocks ++ [block]) (block.id + 1) where
  normalized other hother := by
    rcases List.mem_append.mp hother with hother | hother
    · exact h.normalized other hother
    · rw [List.mem_singleton.mp hother]
      exact ⟨input, hnormalize⟩
  domains := by
    rw [List.map_append, List.map_singleton]
    exact List.nodup_append.mpr ⟨h.domains, List.nodup_singleton _, fun other hother _ hsame heq =>
      hnew (List.mem_singleton.mp hsame ▸ heq ▸ hother)⟩
  ids := by
    rw [List.map_append, List.map_singleton]
    refine List.nodup_append.mpr ⟨h.ids, List.nodup_singleton _, fun id hid _ hsame heq => ?_⟩
    obtain ⟨other, hother, rfl⟩ := List.mem_map.mp hid
    have hlt := h.fresh other hother
    rw [heq, List.mem_singleton.mp hsame] at hlt
    exact Int.lt_irrefl _ hlt
  fresh other hother := by
    rcases List.mem_append.mp hother with hother | hother
    · have hlt := h.fresh other hother
      omega
    · rw [List.mem_singleton.mp hother]
      omega

theorem next_cases {op : Op} (P : State → Prop) (hsame : P state)
    (hstep : ∀ state', op.apply env now state = .ok state' → P state') : P (next env state now op) := by
  rw [next]
  split
  · rename_i state' h
    exact hstep state' h
  · exact hsame

theorem step_rules {label : ℤ × Op} (h : Rules env state.blocks state.nextBlockId)
    (hstep : Step env state label state') : Rules env state'.blocks state'.nextBlockId := by
  obtain ⟨now, op⟩ := label
  rw [hstep]
  refine next_cases (fun state => Rules env state.blocks state.nextBlockId) h fun after happly => ?_
  cases op with
  | setDomainBlock request =>
    obtain ⟨-, -, domain, hnormalize, ⟨block, -, -, -, hupdate⟩ | hinsert⟩ := setDomainBlock_ok happly
    · obtain ⟨accounts, -, rfl⟩ := updateBlock_ok hupdate
      refine h.map (fun other => ?_) fun other => ?_
      · split <;> rfl
      · split <;> rfl
    · obtain ⟨hnew, accounts, -, rfl⟩ := insertBlock_ok hinsert
      exact Rules.append h hnormalize hnew
  | unblockDomain authorized domain =>
    obtain ⟨-, normalized, -, block, -, -, rfl⟩ := unblockDomain_ok happly
    exact h.filter _
  | silence accountId =>
    obtain rfl := Except.ok.inj happly
    exact h
  | suspend accountId =>
    obtain ⟨-, rfl⟩ := suspendAccount_ok happly
    exact h

theorem rules_of_run {accounts : List RemoteAccount} {labels : List (ℤ × Op)}
    (h : Schemes.Runs.Run (Step env) (State.initial accounts) labels state) :
    Rules env state.blocks state.nextBlockId := by
  refine h.preserves (P := fun state => Rules env state.blocks state.nextBlockId)
    (fun _ _ _ hrules hstep => step_rules hrules hstep) ?_
  exact ⟨by simp [State.initial], List.nodup_nil, List.nodup_nil, by simp [State.initial]⟩

end Rustodon.Moderation
