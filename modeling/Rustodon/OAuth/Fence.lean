import Rustodon.OAuth.Changes
import Rustodon.Schemes.Runs

/-! @src mastodon/write_repository.rs, write_repository/auth.rs | name:Passwords fence access |
    scheme:locks,runs | family:oauth

    Whoever replaces a password has the row of the user to itself from its first statement, and whoever
    inserts a token, a session or a grant for the user has a lock on that row too. What a replacement has
    found is therefore all that there is when it commits. A sign-in also compares the hash under the lock;
    a grant is inserted for the user of a session that has been read before, and compares nothing. -/

namespace Rustodon.OAuth
open Schemes.Locks (Mode)
open Schemes.Runs (Run)
open Schemes.Tables (Table)

variable {crates : Crates} {s s' : State} {a : Action} {id : ℕ} {work work' : Work} {userId : ℤ} {since : ℕ}

/-! ### What the fence is -/

/-- What was authorized then does not date from before a replacement of the password. -/
def UpToDate (s : State) (userId : ℤ) (since : ℕ) : Prop :=
  ∀ user, s.users.get userId = some user → user.replacements ≤ since

/-- No access dates from before a replacement, and no reset token has been used twice. -/
structure Fenced (s : State) : Prop where
  tokens : ∀ token ∈ s.tokens, ∀ userId, token.isLive userId = true → UpToDate s userId token.since
  sessions : ∀ session ∈ s.sessions, UpToDate s session.userId session.since
  grants : ∀ grant ∈ s.grants, ∀ userId, grant.isLive userId = true → UpToDate s userId grant.since
  resets : ∀ user ∈ s.users.rows, user.resetPasswordToken.isSome = true → user.replacements ≤ user.resetSince
  spent : s.spent.Nodup

/-- A state from which a run can start: nobody is at work, and the history begins. -/
structure Idle (s : State) : Prop where
  requests : s.requests.rows = []
  fenced : Fenced s
  passwords : ∀ user ∈ s.users.rows, ∀ value, user.encryptedPassword = some value → value < s.nextRequest
  resets : ∀ user ∈ s.users.rows, ∀ value, user.resetPasswordToken = some value → value < s.nextRequest
  /-- The index of reset tokens is unique. -/
  distinct : ∀ user ∈ s.users.rows, ∀ other ∈ s.users.rows, ∀ value, user.resetPasswordToken = some value →
    other.resetPasswordToken = some value → user = other
  spent : s.spent = []

/-- When a grant is committed, the password of its owner is still the one of the session that was read. -/
def GrantUpToDate (s : State) (a : Action) : Prop :=
  ∀ id request grant, a = .commit id → s.requests.get id = some request → request.work = .granted grant →
    UpToDate s grant.resourceOwnerId grant.since

/-! ### What requests know -/

/-- The hash that has been verified is still that of the user only if the password has not been replaced. -/
def Verified (s : State) (password : VerifiedPassword) : Prop :=
  s.Drawn password.encryptedPassword ∧ ∀ user, s.users.get password.userId = some user →
    user.encryptedPassword = some password.encryptedPassword → user.replacements ≤ password.since

/-- A replacement has found all that there is. -/
def Found (s : State) (userId : ℤ) : Progress → Prop
  | .locked | .replaced => True
  | .signedOut sessions => ∀ session ∈ s.sessions, session.userId = userId → session.id ∈ sessions
  | .detached sessions tokens _ =>
    (∀ session ∈ s.sessions, session.userId = userId → session.id ∈ sessions) ∧
      ∀ token ∈ s.tokens, token.isLive userId = true → token.id ∈ tokens
  | .revoked sessions tokens _ grants _ =>
    (∀ session ∈ s.sessions, session.userId = userId → session.id ∈ sessions) ∧
      (∀ token ∈ s.tokens, token.isLive userId = true → token.id ∈ tokens) ∧
      ∀ grant ∈ s.grants, grant.isLive userId = true → grant.id ∈ grants

def HasReset (s : State) (userId : ℤ) (resetToken : Option ℕ) : Prop :=
  ∀ value, resetToken = some value → ∃ user, s.users.get userId = some user ∧
    user.resetPasswordToken = some value

/-- A request knows what its locks keep as it is. -/
def Current (s : State) : Work → Prop
  | .signingIn password => UpToDate s password.userId password.since
  | .signInToken password token =>
    UpToDate s password.userId password.since ∧ token.resourceOwnerId = some password.userId ∧
      token.since = password.since
  | .signedIn password token session =>
    UpToDate s password.userId password.since ∧ token.resourceOwnerId = some password.userId ∧
      token.since = password.since ∧ session.userId = password.userId ∧ session.since = password.since
  | .replacing userId resetToken progress => HasReset s userId resetToken ∧ Found s userId progress
  | .issuing grant _ token =>
    token.resourceOwnerId = some grant.resourceOwnerId ∧ token.since = grant.since
  | .mailed userId _ since => UpToDate s userId since
  | _ => True

structure Guarded (s : State) : Prop where
  held : Held s
  fenced : Fenced s
  passwords : ∀ user ∈ s.users.rows, ∀ value, user.encryptedPassword = some value → s.Drawn value
  resets : ∀ user ∈ s.users.rows, ∀ value, user.resetPasswordToken = some value →
    s.Drawn value ∧ value ∉ s.spent
  distinct : ∀ user ∈ s.users.rows, ∀ other ∈ s.users.rows, ∀ value, user.resetPasswordToken = some value →
    other.resetPasswordToken = some value → user = other
  spent : ∀ value ∈ s.spent, s.Drawn value
  verified : ∀ request ∈ s.requests.rows, ∀ purpose password, request.work = .verified purpose password →
    Verified s password
  current : ∀ request ∈ s.requests.rows, Current s request.work

theorem guarded_of_idle (h : Idle s) : Guarded s := by
  have hnone (value : ℕ) : s.requests.get value = none := by
    rw [Table.get, Schemes.Tables.find_eq_none, h.requests]
    simp
  refine ⟨held_of_idle h.requests, h.fenced, ?_, ?_, h.distinct, ?_, ?_, ?_⟩
  · exact fun user huser value hvalue => ⟨h.passwords user huser value hvalue, hnone value⟩
  · intro user huser value hvalue
    refine ⟨⟨h.resets user huser value hvalue, hnone value⟩, ?_⟩
    simp [h.spent]
  · simp [h.spent]
  · simp [h.requests]
  · simp [h.requests]

/-! ### What is drawn once -/

theorem State.Drawn.change {value : ℕ} (h : s.Drawn value) (hchange : Change crates s a s') :
    s'.Drawn value := by
  obtain ⟨hlt, hnone⟩ := h
  cases hchange with
  | ticked now => exact ⟨hlt, hnone⟩
  | registered application hid huid => exact ⟨Nat.lt_succ_of_lt hlt, hnone⟩
  | started work requests hopened hfree hinsert =>
    refine ⟨Nat.lt_succ_of_lt hlt, ?_⟩
    rw [Table.get_insert hinsert, if_neg (Nat.ne_of_gt hlt)]
    exact hnone
  | advanced request work hget hadvanced hfree =>
    refine ⟨hlt, ?_⟩
    rw [Table.get_modify, hnone]
    rfl
  | committed request after ha hget happlied =>
    obtain ⟨hrequests, hnext, -⟩ := happlied.requests
    refine ⟨hnext ▸ hlt, ?_⟩
    rw [State.finish, hrequests, Table.get_erase, hnone, ite_self]
  | aborted id =>
    refine ⟨hlt, ?_⟩
    rw [State.finish, Table.get_erase, hnone, ite_self]

theorem drawn_of_finish {request : Request} {after : State} (h : Held s)
    (hget : s.requests.get request.id = some request) (happlied : Applied s request.id request.work after) :
    (after.finish request.id).Drawn request.id := by
  obtain ⟨hrequests, hnext, -⟩ := happlied.requests
  refine ⟨hnext ▸ h.ids request (Table.mem_of_get hget), ?_⟩
  rw [State.finish, hrequests, Table.get_erase, if_pos rfl]

/-! ### What a commit leaves alone -/

theorem get_modify_ne {users : Table User.id} {f : User → User} (hf : ∀ user, (f user).id = user.id)
    {other : ℤ} (h : userId ≠ other) : (users.modify other f hf).get userId = users.get userId := by
  rw [Table.get_modify]
  cases users.get userId <;> simp [h]

theorem Applied.users_get (h : Applied s id work s') (hfree : (.user userId, .exclusive) ∉ work.locks) :
    s'.users.get userId = s.users.get userId := by
  cases h with
  | signedIn _ _ _ | granted _ | issued _ _ _ => rfl
  | replaced other _ _ _ _ _ _ =>
    refine get_modify_ne (User.replace_id id) ?_
    rintro rfl
    exact hfree List.mem_cons_self
  | mailed other sentAt since =>
    refine get_modify_ne (User.mail_id id sentAt since) ?_
    rintro rfl
    exact hfree List.mem_cons_self

theorem Applied.session_of_mem {session : SessionActivation} (h : Applied s id work s')
    (hcurrent : Current s work) (hsession : session ∈ s'.sessions) :
    session ∈ s.sessions ∨ ∃ mode, (.user session.userId, mode) ∈ work.locks := by
  cases h with
  | signedIn password token new =>
    rcases List.mem_append.mp hsession with hold | hnew
    · exact .inl hold
    · obtain rfl := List.mem_singleton.mp hnew
      obtain ⟨-, -, -, huser, -⟩ := hcurrent
      exact .inr ⟨.exclusive, by rw [huser]; exact List.mem_cons_self⟩
  | replaced _ _ _ _ _ _ _ => exact .inl (List.mem_filter.mp hsession).1
  | granted _ | issued _ _ _ | mailed _ _ _ => exact .inl hsession

theorem isLive_iff {token : AccessToken} :
    token.isLive userId = true ↔ token.resourceOwnerId = some userId ∧ token.revokedAt = none := by
  simp [AccessToken.isLive]

theorem grant_isLive_iff {grant : AccessGrant} :
    grant.isLive userId = true ↔ grant.resourceOwnerId = userId ∧ grant.revokedAt = none := by
  simp [AccessGrant.isLive]

/-- A token that is still live has not been revoked. -/
theorem eq_of_isLive_revokeIn {token : AccessToken} {tokens : List ℕ} {tokensAt : ℤ}
    (h : (token.revokeIn tokens tokensAt).isLive userId = true) :
    token.revokeIn tokens tokensAt = token ∧ token.id ∉ tokens := by
  unfold AccessToken.revokeIn at h ⊢
  split
  · rename_i hid
    rw [if_pos hid, isLive_iff, Option.or_eq_none_iff] at h
    exact absurd h.2.2 (by simp)
  · rename_i hid
    exact ⟨rfl, hid⟩

theorem eq_of_grant_isLive_revokeIn {grant : AccessGrant} {grants : List ℕ} {grantsAt : ℤ}
    (h : (grant.revokeIn grants grantsAt).isLive userId = true) :
    grant.revokeIn grants grantsAt = grant ∧ grant.id ∉ grants := by
  unfold AccessGrant.revokeIn at h ⊢
  split
  · rename_i hid
    rw [if_pos hid, grant_isLive_iff, Option.or_eq_none_iff] at h
    exact absurd h.2.2 (by simp)
  · rename_i hid
    exact ⟨rfl, hid⟩

theorem eq_of_isLive_revokeAt {grant : AccessGrant} {revokedAt : ℤ}
    (h : (grant.revokeAt id revokedAt).isLive userId = true) : grant.revokeAt id revokedAt = grant := by
  unfold AccessGrant.revokeAt at h ⊢
  split
  · rename_i hid
    rw [if_pos hid, grant_isLive_iff] at h
    exact absurd h.2 (by simp)
  · rfl

theorem Applied.token_of_isLive {token : AccessToken} (h : Applied s id work s') (hcurrent : Current s work)
    (htoken : token ∈ s'.tokens) (hlive : token.isLive userId = true) :
    token ∈ s.tokens ∨ ∃ mode, (.user userId, mode) ∈ work.locks := by
  cases h with
  | signedIn password new session =>
    rcases List.mem_append.mp htoken with hold | hnew
    · exact .inl hold
    · obtain rfl := List.mem_singleton.mp hnew
      obtain ⟨-, howner, -⟩ := hcurrent
      obtain rfl := Option.some.inj (howner.symm.trans (isLive_iff.mp hlive).1)
      exact .inr ⟨.exclusive, List.mem_cons_self⟩
  | replaced _ _ _ tokens tokensAt _ _ =>
    obtain ⟨old, hold, rfl⟩ := List.mem_map.mp htoken
    rw [(eq_of_isLive_revokeIn hlive).1]
    exact .inl hold
  | issued grant revokedAt new =>
    rcases List.mem_append.mp htoken with hold | hnew
    · exact .inl hold
    · obtain rfl := List.mem_singleton.mp hnew
      obtain rfl := Option.some.inj (hcurrent.1.symm.trans (isLive_iff.mp hlive).1)
      exact .inr ⟨.shared, List.mem_cons_of_mem _ List.mem_cons_self⟩
  | granted _ | mailed _ _ _ => exact .inl htoken

theorem Applied.grant_of_isLive {grant : AccessGrant} (h : Applied s id work s') (hgrant : grant ∈ s'.grants)
    (hlive : grant.isLive userId = true) :
    grant ∈ s.grants ∨ ∃ mode, (.user userId, mode) ∈ work.locks := by
  cases h with
  | granted new =>
    rcases List.mem_append.mp hgrant with hold | hnew
    · exact .inl hold
    · obtain rfl := List.mem_singleton.mp hnew
      obtain rfl := (grant_isLive_iff.mp hlive).1
      exact .inr ⟨.shared, List.mem_cons_self⟩
  | replaced _ _ _ _ _ grants grantsAt =>
    obtain ⟨old, hold, rfl⟩ := List.mem_map.mp hgrant
    rw [(eq_of_grant_isLive_revokeIn hlive).1]
    exact .inl hold
  | issued other revokedAt token =>
    obtain ⟨old, hold, rfl⟩ := List.mem_map.mp hgrant
    rw [eq_of_isLive_revokeAt hlive]
    exact .inl hold
  | signedIn _ _ _ | mailed _ _ _ => exact .inl hgrant

/-! ### What the locks of a request keep as it is -/

/-- Nothing has come to the users that a request has locked. -/
structure Undisturbed (s s' : State) (work : Work) : Prop where
  users : ∀ userId, (.user userId, .exclusive) ∈ work.locks → s'.users.get userId = s.users.get userId
  sessions : ∀ session ∈ s'.sessions, (.user session.userId, .exclusive) ∈ work.locks → session ∈ s.sessions
  tokens : ∀ token ∈ s'.tokens, ∀ userId, token.isLive userId = true →
    (.user userId, .exclusive) ∈ work.locks → token ∈ s.tokens
  grants : ∀ grant ∈ s'.grants, ∀ userId, grant.isLive userId = true →
    (.user userId, .exclusive) ∈ work.locks → grant ∈ s.grants

theorem Undisturbed.upToDate (h : Undisturbed s s' work) (hlock : (.user userId, .exclusive) ∈ work.locks)
    (hdate : UpToDate s userId since) : UpToDate s' userId since := by
  intro user hget
  rw [h.users userId hlock] at hget
  exact hdate user hget

theorem Undisturbed.found {progress : Progress} (h : Undisturbed s s' work)
    (hlock : (.user userId, .exclusive) ∈ work.locks) (hfound : Found s userId progress) :
    Found s' userId progress := by
  have hsessions {sessions : List ℕ}
      (hold : ∀ session ∈ s.sessions, session.userId = userId → session.id ∈ sessions) :
      ∀ session ∈ s'.sessions, session.userId = userId → session.id ∈ sessions := by
    intro session hsession huser
    exact hold session (h.sessions session hsession (huser ▸ hlock)) huser
  have htokens {tokens : List ℕ} (hold : ∀ token ∈ s.tokens, token.isLive userId = true → token.id ∈ tokens) :
      ∀ token ∈ s'.tokens, token.isLive userId = true → token.id ∈ tokens :=
    fun token htoken hlive => hold token (h.tokens token htoken userId hlive hlock) hlive
  cases progress with
  | locked | replaced => trivial
  | signedOut sessions => exact hsessions hfound
  | detached sessions tokens tokensAt => exact ⟨hsessions hfound.1, htokens hfound.2⟩
  | revoked sessions tokens tokensAt grants grantsAt =>
    obtain ⟨hfoundSessions, hfoundTokens, hfoundGrants⟩ := hfound
    refine ⟨hsessions hfoundSessions, htokens hfoundTokens, fun grant hgrant hlive => ?_⟩
    exact hfoundGrants grant (h.grants grant hgrant userId hlive hlock) hlive

theorem Undisturbed.current (h : Undisturbed s s' work) (hcurrent : Current s work) : Current s' work := by
  cases work with
  | signingIn password => exact h.upToDate List.mem_cons_self hcurrent
  | signInToken password token => exact ⟨h.upToDate List.mem_cons_self hcurrent.1, hcurrent.2⟩
  | signedIn password token session => exact ⟨h.upToDate List.mem_cons_self hcurrent.1, hcurrent.2⟩
  | replacing userId resetToken progress =>
    refine ⟨fun value hvalue => ?_, h.found List.mem_cons_self hcurrent.2⟩
    obtain ⟨user, hget, htoken⟩ := hcurrent.1 value hvalue
    exact ⟨user, (h.users userId List.mem_cons_self).trans hget, htoken⟩
  | issuing grant revokedAt token => exact hcurrent
  | mailed userId sentAt since => exact h.upToDate List.mem_cons_self hcurrent
  | verified _ _ | consented _ _ _ | granting _ _ _ _ _ | granted _ | redeeming _ _ _ | redeemed _ _ _ _
  | mailing _ => trivial

/-- A commit does not disturb another request. -/
theorem Held.undisturbed {request other : Request} {after : State} (h : Held s)
    (hget : s.requests.get request.id = some request) (happlied : Applied s request.id request.work after)
    (hcurrent : Current s request.work) (hother : other ∈ s.requests.rows) (hne : other.id ≠ request.id) :
    Undisturbed s (after.finish request.id) other.work := by
  have hfree {userId : ℤ} {mode : Mode} (hlock : (.user userId, .exclusive) ∈ other.work.locks) :
      (.user userId, mode) ∉ request.work.locks :=
    h.locks.not_mem hother (Table.mem_of_get hget) hne hlock
  refine ⟨fun userId hlock => happlied.users_get (hfree hlock), ?_, ?_, ?_⟩
  · intro session hsession hlock
    rcases happlied.session_of_mem hcurrent hsession with hold | ⟨mode, hmem⟩
    · exact hold
    · exact absurd hmem (hfree hlock)
  · intro token htoken userId hlive hlock
    rcases happlied.token_of_isLive hcurrent htoken hlive with hold | ⟨mode, hmem⟩
    · exact hold
    · exact absurd hmem (hfree hlock)
  · intro grant hgrant userId hlive hlock
    rcases happlied.grant_of_isLive hgrant hlive with hold | ⟨mode, hmem⟩
    · exact hold
    · exact absurd hmem (hfree hlock)

/-! ### What a commit does to the fence -/

theorem UpToDate.congr (hget : s'.users.get userId = s.users.get userId) (h : UpToDate s userId since) :
    UpToDate s' userId since := by
  intro user huser
  rw [hget] at huser
  exact h user huser

/-- A reset mail leaves the password as it is. -/
theorem get_mail {other : ℤ} {sentAt : ℤ} {user : User}
    (h : (s.users.modify other (User.mail id sentAt since) (User.mail_id id sentAt since)).get userId = some user) :
    ∃ old, s.users.get userId = some old ∧ user.encryptedPassword = old.encryptedPassword ∧
      user.replacements = old.replacements := by
  rw [Table.get_modify] at h
  obtain ⟨old, hold, rfl⟩ := Option.map_eq_some_iff.mp h
  refine ⟨old, hold, ?_⟩
  split <;> exact ⟨rfl, rfl⟩

/-- The row of a user after a change of another, or of it. -/
theorem mem_modify {f : User → User} (hf : ∀ user, (f user).id = user.id) {user : User}
    (h : user ∈ (s.users.modify userId f hf).rows) :
    (∃ old ∈ s.users.rows, old.id = userId ∧ user = f old) ∨ user ∈ s.users.rows ∧ user.id ≠ userId := by
  obtain ⟨old, hold, rfl⟩ := List.mem_map.mp h
  split
  · rename_i hid
    exact .inl ⟨old, hold, hid, rfl⟩
  · rename_i hid
    exact .inr ⟨hold, hid⟩

theorem Guarded.fenced_applied {request : Request} {after : State} (h : Guarded s)
    (hget : s.requests.get request.id = some request) (happlied : Applied s request.id request.work after)
    (hgrant : ∀ grant, request.work = .granted grant → UpToDate s grant.resourceOwnerId grant.since) :
    Fenced after := by
  have hmem := mem_requests_of_get hget
  have hcurrent := h.current request hmem
  obtain ⟨id, work⟩ := request
  dsimp only at happlied hgrant hcurrent hget
  cases happlied with
  | signedIn password token session =>
    obtain ⟨hdate, howner, htokenSince, huser, hsince⟩ := hcurrent
    refine ⟨?_, ?_, h.fenced.grants, h.fenced.resets, h.fenced.spent⟩
    · intro other hother userId hlive
      rcases List.mem_append.mp hother with hold | hnew
      · exact h.fenced.tokens other hold userId hlive
      · obtain rfl := List.mem_singleton.mp hnew
        obtain rfl := Option.some.inj (howner.symm.trans (isLive_iff.mp hlive).1)
        rw [htokenSince]
        exact hdate
    · intro other hother
      rcases List.mem_append.mp hother with hold | hnew
      · exact h.fenced.sessions other hold
      · obtain rfl := List.mem_singleton.mp hnew
        rw [huser, hsince]
        exact hdate
  | replaced userId resetToken sessions tokens tokensAt grants grantsAt =>
    obtain ⟨hreset, hsessions, htokens, hgrants⟩ := hcurrent
    have hothers {other : ℤ} {since : ℕ} (hne : other ≠ userId) (hdate : UpToDate s other since) :
        UpToDate { s with users := s.users.modify userId (User.replace id) (User.replace_id id) } other since :=
      hdate.congr (get_modify_ne (User.replace_id id) hne)
    refine ⟨?_, ?_, ?_, ?_, ?_⟩
    · intro token htoken other hlive
      obtain ⟨old, hold, rfl⟩ := List.mem_map.mp htoken
      obtain ⟨heq, hid⟩ := eq_of_isLive_revokeIn hlive
      rw [heq] at hlive ⊢
      refine hothers ?_ (h.fenced.tokens old hold other hlive)
      rintro rfl
      exact hid (htokens old hold hlive)
    · intro session hsession
      obtain ⟨hold, hid⟩ := List.mem_filter.mp hsession
      refine hothers (fun huser => ?_) (h.fenced.sessions session hold)
      exact of_decide_eq_true hid (hsessions session hold huser)
    · intro grant hmemGrant other hlive
      obtain ⟨old, hold, rfl⟩ := List.mem_map.mp hmemGrant
      obtain ⟨heq, hid⟩ := eq_of_grant_isLive_revokeIn hlive
      rw [heq] at hlive ⊢
      refine hothers ?_ (h.fenced.grants old hold other hlive)
      rintro rfl
      exact hid (hgrants old hold hlive)
    · intro user huser hsome
      rcases mem_modify (User.replace_id id) huser with ⟨old, -, -, rfl⟩ | ⟨hold, -⟩
      · cases hsome
      · exact h.fenced.resets user hold hsome
    · cases resetToken with
      | none => simpa using h.fenced.spent
      | some value =>
        obtain ⟨user, huser, htoken⟩ := hreset value rfl
        have hnew := (h.resets user (Table.mem_of_get huser) value htoken).2
        exact List.nodup_append.mpr ⟨h.fenced.spent, List.nodup_singleton _, by
          rintro x hx _ hvalue rfl
          obtain rfl := List.mem_singleton.mp hvalue
          exact hnew hx⟩
  | granted grant =>
    refine ⟨h.fenced.tokens, h.fenced.sessions, ?_, h.fenced.resets, h.fenced.spent⟩
    intro other hother userId hlive
    rcases List.mem_append.mp hother with hold | hnew
    · exact h.fenced.grants other hold userId hlive
    · obtain rfl := List.mem_singleton.mp hnew
      obtain rfl := (grant_isLive_iff.mp hlive).1
      exact hgrant other rfl
  | issued grant revokedAt token =>
    obtain ⟨howner, hsince⟩ := hcurrent
    obtain ⟨hthere, hunrevoked⟩ := h.held.redeeming _ hmem grant rfl
    refine ⟨?_, h.fenced.sessions, ?_, h.fenced.resets, h.fenced.spent⟩
    · intro other hother userId hlive
      rcases List.mem_append.mp hother with hold | hnew
      · exact h.fenced.tokens other hold userId hlive
      · obtain rfl := List.mem_singleton.mp hnew
        obtain rfl := Option.some.inj (howner.symm.trans (isLive_iff.mp hlive).1)
        rw [hsince]
        exact h.fenced.grants grant hthere _ (grant_isLive_iff.mpr ⟨rfl, hunrevoked⟩)
    · intro other hother userId hlive
      obtain ⟨old, hold, rfl⟩ := List.mem_map.mp hother
      have heq := eq_of_isLive_revokeAt hlive
      rw [heq] at hlive ⊢
      exact h.fenced.grants old hold userId hlive
  | mailed userId sentAt since =>
    have hdates {other : ℤ} {n : ℕ} (hdate : UpToDate s other n) :
        UpToDate { s with users := s.users.modify userId (User.mail id sentAt since) (User.mail_id id sentAt since) }
          other n := by
      intro user huser
      obtain ⟨old, hold, -, hreplacements⟩ := get_mail huser
      rw [hreplacements]
      exact hdate old hold
    refine ⟨?_, ?_, ?_, ?_, h.fenced.spent⟩
    · exact fun token htoken other hlive => hdates (h.fenced.tokens token htoken other hlive)
    · exact fun session hsession => hdates (h.fenced.sessions session hsession)
    · exact fun grant hmemGrant other hlive => hdates (h.fenced.grants grant hmemGrant other hlive)
    · intro user huser hsome
      rcases mem_modify (User.mail_id id sentAt since) huser with ⟨old, hold, hid, rfl⟩ | ⟨hold, -⟩
      · exact hcurrent old (hid ▸ Table.mem_iff_get.mp hold)
      · exact h.fenced.resets user hold hsome

/-! ### What requests find -/

theorem Opened.current (h : Opened crates s work) : Current s work := by
  cases h with
  | lockedByEmail userId => exact ⟨fun _ hvalue => (Option.some_ne_none _ hvalue.symm).elim, trivial⟩
  | lockedByToken token user hget htoken =>
    refine ⟨fun value hvalue => ?_, trivial⟩
    obtain rfl := Option.some.inj hvalue
    exact ⟨user, hget, htoken⟩
  | verified _ _ _ _ _ | consented _ _ _ | redeeming _ _ _ _ _ _ _ _ _ | mailing _ => trivial

theorem Guarded.verified_of_opened {purpose : Purpose} {password : VerifiedPassword} (h : Guarded s)
    (hopened : Opened crates s (.verified purpose password)) : Verified s password := by
  cases hopened with
  | verified purpose user encryptedPassword hget hpassword =>
    refine ⟨h.passwords user (Table.mem_of_get hget) _ hpassword, fun other hother _ => ?_⟩
    obtain rfl := Option.some.inj (hget.symm.trans hother)
    exact le_refl _

theorem found_replace {progress progress' : Progress} (h : s.replace userId progress = some progress')
    (hfound : Found s userId progress) : Found s userId progress' := by
  cases progress with
  | locked =>
    obtain rfl := Option.some.inj h
    trivial
  | replaced =>
    obtain rfl := Option.some.inj h
    intro session hsession huser
    exact List.mem_map_of_mem (List.mem_filter.mpr ⟨hsession, by simpa using huser⟩)
  | signedOut sessions =>
    obtain rfl := Option.some.inj h
    exact ⟨hfound, fun token htoken hlive => List.mem_map_of_mem (List.mem_filter.mpr ⟨htoken, hlive⟩)⟩
  | detached sessions tokens tokensAt =>
    obtain rfl := Option.some.inj h
    exact ⟨hfound.1, hfound.2,
      fun grant hgrant hlive => List.mem_map_of_mem (List.mem_filter.mpr ⟨hgrant, hlive⟩)⟩
  | revoked sessions tokens tokensAt grants grantsAt => cases h

/-- Under the lock, the hash says whether the password has been replaced since it was verified. -/
theorem Advanced.current (h : Advanced s id work work') (hcurrent : Current s work)
    (hverified : ∀ purpose password, work = .verified purpose password → Verified s password) :
    Current s work' := by
  cases h with
  | locked password user hget hpassword =>
    intro other hother
    obtain rfl := Option.some.inj (hget.symm.trans hother)
    exact (hverified .signIn password rfl).2 user hget hpassword
  | lockedForChange password => exact ⟨fun _ hvalue => (Option.some_ne_none _ hvalue.symm).elim, trivial⟩
  | token password draw => exact ⟨hcurrent, rfl, rfl⟩
  | session password token draw => exact ⟨hcurrent.1, hcurrent.2.1, hcurrent.2.2, rfl, rfl⟩
  | replaced userId resetToken progress progress' hreplace =>
    exact ⟨hcurrent.1, found_replace hreplace hcurrent.2⟩
  | issuing grant request now revokedAt draw => exact ⟨rfl, rfl⟩
  | mailed userId user hget =>
    intro other hother
    obtain rfl := Option.some.inj (hget.symm.trans hother)
    exact le_refl _
  | allowed _ _ _ _ _ _ _ | granted _ _ _ _ _ _ | redeemed _ _ _ => trivial

theorem Advanced.not_verified {purpose : Purpose} {password : VerifiedPassword}
    (h : Advanced s id work (.verified purpose password)) : False := by
  cases h

/-! ### Steps -/

theorem Verified.congr {password : VerifiedPassword} (h : Verified s password)
    (hdrawn : ∀ value, s.Drawn value → s'.Drawn value) (husers : s'.users = s.users) : Verified s' password := by
  refine ⟨hdrawn _ h.1, ?_⟩
  rw [husers]
  exact h.2

/-- A step that leaves the tables alone keeps what the requests know, old and new. -/
theorem Guarded.frame (h : Guarded s) (hheld : Held s') (hdrawn : ∀ value, s.Drawn value → s'.Drawn value)
    (husers : s'.users = s.users) (hsessions : s'.sessions = s.sessions) (htokens : s'.tokens = s.tokens)
    (hgrants : s'.grants = s.grants) (hspent : s'.spent = s.spent)
    (hrequests : ∀ request ∈ s'.requests.rows, request ∈ s.requests.rows ∨ Current s request.work ∧
      ∀ purpose password, request.work = .verified purpose password → Verified s password) : Guarded s' := by
  have hdate {userId : ℤ} {since : ℕ} (hdate : UpToDate s userId since) : UpToDate s' userId since :=
    hdate.congr (by rw [husers])
  refine ⟨hheld, ⟨?_, ?_, ?_, ?_, hspent ▸ h.fenced.spent⟩, ?_, ?_, ?_, ?_, ?_, ?_⟩
  · rw [htokens]
    exact fun token htoken userId hlive => hdate (h.fenced.tokens token htoken userId hlive)
  · rw [hsessions]
    exact fun session hsession => hdate (h.fenced.sessions session hsession)
  · rw [hgrants]
    exact fun grant hgrant userId hlive => hdate (h.fenced.grants grant hgrant userId hlive)
  · rw [husers]
    exact h.fenced.resets
  · rw [husers]
    exact fun user huser value hvalue => hdrawn value (h.passwords user huser value hvalue)
  · rw [husers, hspent]
    intro user huser value hvalue
    exact ⟨hdrawn value (h.resets user huser value hvalue).1, (h.resets user huser value hvalue).2⟩
  · rw [husers]
    exact h.distinct
  · rw [hspent]
    exact fun value hvalue => hdrawn value (h.spent value hvalue)
  · intro request hrequest purpose password hwork
    rcases hrequests request hrequest with hold | ⟨-, hnew⟩
    · exact (h.verified request hold purpose password hwork).congr hdrawn husers
    · exact (hnew purpose password hwork).congr hdrawn husers
  · intro request hrequest
    have hcurrent : Current s request.work := by
      rcases hrequests request hrequest with hold | ⟨hnew, -⟩
      · exact h.current request hold
      · exact hnew
    refine Undisturbed.current ⟨fun _ _ => by rw [husers], ?_, ?_, ?_⟩ hcurrent
    · exact fun session hsession _ => hsessions ▸ hsession
    · exact fun token htoken _ _ _ => htokens ▸ htoken
    · exact fun grant hgrant _ _ _ => hgrants ▸ hgrant

/-- What has been verified before a commit says as much after it: a hash that is new has not been
    verified yet. -/
theorem Verified.applied {password : VerifiedPassword} {request : Request} {after : State}
    (h : Verified s password) (hget : s.requests.get request.id = some request)
    (happlied : Applied s request.id request.work after)
    (hdrawn : (after.finish request.id).Drawn password.encryptedPassword) :
    Verified (after.finish request.id) password := by
  have hne := h.1.ne hget
  refine ⟨hdrawn, ?_⟩
  obtain ⟨id, work⟩ := request
  dsimp only at happlied hne hdrawn hget ⊢
  cases happlied with
  | signedIn _ _ _ | granted _ | issued _ _ _ => exact h.2
  | replaced userId _ _ _ _ _ _ =>
    intro user huser hpassword
    rcases mem_modify (User.replace_id id) (Table.mem_of_get huser) with ⟨old, -, -, rfl⟩ | ⟨-, hother⟩
    · exact absurd (Option.some.inj hpassword).symm hne
    · have hid := Table.key_of_get huser
      refine h.2 user ?_ hpassword
      rwa [← get_modify_ne (User.replace_id id) (hid ▸ hother)]
  | mailed userId sentAt since =>
    intro user huser hpassword
    obtain ⟨old, hold, hsame, hreplacements⟩ := get_mail huser
    rw [hreplacements]
    exact h.2 old hold (hsame.symm.trans hpassword)

theorem Guarded.users_applied {request : Request} {after : State} (h : Guarded s)
    (hget : s.requests.get request.id = some request) (happlied : Applied s request.id request.work after)
    (hdrawn : ∀ value, s.Drawn value → (after.finish request.id).Drawn value)
    (hnew : (after.finish request.id).Drawn request.id) :
    (∀ user ∈ after.users.rows, ∀ value, user.encryptedPassword = some value →
      (after.finish request.id).Drawn value) ∧
    (∀ user ∈ after.users.rows, ∀ value, user.resetPasswordToken = some value →
      (after.finish request.id).Drawn value ∧ value ∉ after.spent) ∧
    (∀ user ∈ after.users.rows, ∀ other ∈ after.users.rows, ∀ value, user.resetPasswordToken = some value →
      other.resetPasswordToken = some value → user = other) ∧
    ∀ value ∈ after.spent, (after.finish request.id).Drawn value := by
  have hcurrent := h.current request (mem_requests_of_get hget)
  have hpasswords : ∀ user ∈ s.users.rows, ∀ value, user.encryptedPassword = some value →
      (after.finish request.id).Drawn value :=
    fun user huser value hvalue => hdrawn value (h.passwords user huser value hvalue)
  have hresets : ∀ user ∈ s.users.rows, ∀ value, user.resetPasswordToken = some value →
      (after.finish request.id).Drawn value ∧ value ∉ s.spent :=
    fun user huser value hvalue =>
      ⟨hdrawn value (h.resets user huser value hvalue).1, (h.resets user huser value hvalue).2⟩
  have hspent : ∀ value ∈ s.spent, (after.finish request.id).Drawn value :=
    fun value hvalue => hdrawn value (h.spent value hvalue)
  -- No user has the token yet that the request draws.
  have hfresh : ∀ user ∈ s.users.rows, user.resetPasswordToken ≠ some request.id := by
    intro user huser htoken
    exact ((h.resets user huser request.id htoken).1.ne hget) rfl
  obtain ⟨id, work⟩ := request
  dsimp only at happlied hcurrent hget hnew hpasswords hresets hspent hfresh ⊢
  cases happlied with
  | signedIn _ _ _ | granted _ | issued _ _ _ => exact ⟨hpasswords, hresets, h.distinct, hspent⟩
  | replaced userId resetToken sessions tokens tokensAt grants grantsAt =>
    refine ⟨?_, ?_, ?_, ?_⟩
    · intro user huser value hvalue
      rcases mem_modify (User.replace_id id) huser with ⟨old, -, -, rfl⟩ | ⟨hold, -⟩
      · obtain rfl := Option.some.inj hvalue
        exact hnew
      · exact hpasswords user hold value hvalue
    · intro user huser value hvalue
      rcases mem_modify (User.replace_id id) huser with ⟨old, -, -, rfl⟩ | ⟨hold, hne⟩
      · cases hvalue
      · obtain ⟨hdrawnValue, hunspent⟩ := hresets user hold value hvalue
        refine ⟨hdrawnValue, fun hmem => ?_⟩
        rcases List.mem_append.mp hmem with hmem | hmem
        · exact hunspent hmem
        · obtain ⟨owner, howner, htoken⟩ := hcurrent.1 value (Option.mem_toList.mp hmem)
          obtain rfl := h.distinct user hold owner (Table.mem_of_get howner) value hvalue htoken
          exact hne (Table.key_of_get howner)
    · intro user huser other hother value hvalue hvalue'
      rcases mem_modify (User.replace_id id) huser with ⟨old, -, -, rfl⟩ | ⟨hold, -⟩
      · cases hvalue
      · rcases mem_modify (User.replace_id id) hother with ⟨old', -, -, rfl⟩ | ⟨hold', -⟩
        · cases hvalue'
        · exact h.distinct user hold other hold' value hvalue hvalue'
    · intro value hvalue
      rcases List.mem_append.mp hvalue with hvalue | hvalue
      · exact hspent value hvalue
      · obtain ⟨owner, howner, htoken⟩ := hcurrent.1 value (Option.mem_toList.mp hvalue)
        exact (hresets owner (Table.mem_of_get howner) value htoken).1
  | mailed userId sentAt since =>
    refine ⟨?_, ?_, ?_, hspent⟩
    · intro user huser value hvalue
      rcases mem_modify (User.mail_id id sentAt since) huser with ⟨old, hold, -, rfl⟩ | ⟨hold, -⟩
      · exact hpasswords old hold value hvalue
      · exact hpasswords user hold value hvalue
    · intro user huser value hvalue
      rcases mem_modify (User.mail_id id sentAt since) huser with ⟨old, hold, -, rfl⟩ | ⟨hold, -⟩
      · obtain rfl := Option.some.inj hvalue
        exact ⟨hnew, fun hmem => (h.spent id hmem).ne hget rfl⟩
      · exact hresets user hold value hvalue
    · intro user huser other hother value hvalue hvalue'
      rcases mem_modify (User.mail_id id sentAt since) huser with ⟨old, hold, hid, rfl⟩ | ⟨hold, -⟩ <;>
        rcases mem_modify (User.mail_id id sentAt since) hother with ⟨old', hold', hid', rfl⟩ | ⟨hold', -⟩
      · have hsame : old = old' := by
          have hget := Table.mem_iff_get.mp hold
          rw [hid, ← hid', Table.mem_iff_get.mp hold'] at hget
          exact (Option.some.inj hget).symm
        rw [hsame]
      · obtain rfl := Option.some.inj hvalue
        exact absurd hvalue' (hfresh other hold')
      · obtain rfl := Option.some.inj hvalue'
        exact absurd hvalue (hfresh user hold)
      · exact h.distinct user hold other hold' value hvalue hvalue'

theorem Guarded.commit {request : Request} {after : State} (h : Guarded s)
    (hget : s.requests.get request.id = some request) (happlied : Applied s request.id request.work after)
    (hdrawn : ∀ value, s.Drawn value → (after.finish request.id).Drawn value)
    (hgrant : ∀ grant, request.work = .granted grant → UpToDate s grant.resourceOwnerId grant.since) :
    Guarded (after.finish request.id) := by
  have hmem := mem_requests_of_get hget
  have hfenced := h.fenced_applied hget happlied hgrant
  obtain ⟨hpasswords, hresets, hdistinct, hspent⟩ :=
    h.users_applied hget happlied hdrawn (drawn_of_finish h.held hget happlied)
  have hothers {other : Request} (hother : other ∈ (after.finish request.id).requests.rows) :
      other ∈ s.requests.rows ∧ other.id ≠ request.id := by
    rw [State.finish, happlied.requests.1] at hother
    exact Table.mem_erase.mp hother
  refine ⟨h.held.finish hget happlied,
    ⟨hfenced.tokens, hfenced.sessions, hfenced.grants, hfenced.resets, hfenced.spent⟩,
    hpasswords, hresets, hdistinct, hspent, ?_, ?_⟩
  · intro other hother purpose password hwork
    have hverified := h.verified other (hothers hother).1 purpose password hwork
    exact hverified.applied hget happlied (hdrawn _ hverified.1)
  · intro other hother
    obtain ⟨hold, hne⟩ := hothers hother
    exact (h.held.undisturbed hget happlied (h.current request hmem) hold hne).current (h.current other hold)

theorem Guarded.change (h : Guarded s) (hchange : Change crates s a s') (hgrant : GrantUpToDate s a) :
    Guarded s' := by
  have hheld := h.held.change hchange
  have hdrawn : ∀ value, s.Drawn value → s'.Drawn value := fun value hvalue => hvalue.change hchange
  cases hchange with
  | ticked now => exact h.frame hheld hdrawn rfl rfl rfl rfl rfl fun request hrequest => .inl hrequest
  | registered application hid huid =>
    exact h.frame hheld hdrawn rfl rfl rfl rfl rfl fun request hrequest => .inl hrequest
  | started work requests hopened hfree hinsert =>
    refine h.frame hheld hdrawn rfl rfl rfl rfl rfl fun request hrequest => ?_
    obtain ⟨-, hrows⟩ := Table.get_of_insert hinsert
    rw [hrows, List.mem_append, List.mem_singleton] at hrequest
    rcases hrequest with hold | rfl
    · exact .inl hold
    · refine .inr ⟨hopened.current, ?_⟩
      rintro purpose password rfl
      exact h.verified_of_opened hopened
  | advanced request work hget hadvanced hfree =>
    have hmem := mem_requests_of_get hget
    refine h.frame hheld hdrawn rfl rfl rfl rfl rfl fun other hother => ?_
    rcases mem_put hother with rfl | ⟨hold, -⟩
    · refine .inr ⟨hadvanced.current (h.current request hmem) (h.verified request hmem), ?_⟩
      rintro purpose password rfl
      exact hadvanced.not_verified.elim
    · exact .inl hold
  | committed request after ha hget happlied =>
    exact h.commit hget happlied hdrawn fun grant hwork => hgrant request.id request grant ha hget hwork
  | aborted id =>
    exact h.frame hheld hdrawn rfl rfl rfl rfl rfl fun request hrequest => .inl (Table.mem_erase.mp hrequest).1

/-- A step in which no grant is committed on a session that a replacement has ended since. -/
def FencedStep (crates : Crates) (s : State) (a : Action) (s' : State) : Prop :=
  s.step crates a = some s' ∧ GrantUpToDate s a

/-- CORRECT (fence): in every run in which grants are committed for sessions that have not been ended, no
    access dates from before a replacement of the password, and each reset token replaces a password at
    most once. -/
theorem password_fence {actions : List Action} (h : Run (FencedStep crates) s actions s') (hidle : Idle s) :
    Fenced s' := by
  have hguarded : Guarded s' :=
    h.preserves (P := Guarded) (fun _ _ _ hinit hstep => hinit.change (step_change hstep.1) hstep.2)
      (guarded_of_idle hidle)
  exact hguarded.fenced

/-! ### Two runs -/

def exampleCrates : Crates := ⟨fun bytes => bytes, fun _ => none⟩

/-- A user who has signed in, and an application. -/
def signedInUser : State :=
  { users := ⟨[⟨1, some 0, none, none, 0, 0⟩], by simp⟩
    applications := [⟨2, "App".toList, "app".toList, "secret".toList, "https://app.example/cb".toList,
      "read".toList, true, false, none⟩]
    grants := []
    tokens := []
    sessions := [⟨1, 1, "session".toList, 1, 0⟩]
    requests := ⟨[], List.nodup_nil⟩
    nextRequest := 3
    clock := 0
    spent := [] }

theorem signedInUser_idle : Idle signedInUser := by
  have hdate (userId : ℤ) : UpToDate signedInUser userId 0 := by
    intro user hget
    obtain rfl := List.mem_singleton.mp (Table.mem_of_get hget)
    exact le_refl 0
  refine ⟨rfl, ⟨by simp [signedInUser], ?_, by simp [signedInUser], by simp [signedInUser], List.nodup_nil⟩,
    by simp [signedInUser], by simp [signedInUser], by simp [signedInUser], rfl⟩
  intro session hsession
  obtain rfl := List.mem_singleton.mp hsession
  exact hdate 1

def exampleGrantRequest : GrantRequest := ⟨"app".toList, "https://app.example/cb".toList, none, none, none⟩

def exampleCodeRequest : CodeRequest :=
  ⟨"app".toList, some "secret".toList, "code".toList, "https://app.example/cb".toList, none⟩

/-- The session is read, the password is changed, and then the grant is inserted and redeemed. -/
def outlived : List Action :=
  [.start (.consent "session".toList exampleGrantRequest), .start (.verify .change 1), .advance 4 [], .advance 4 [],
    .advance 4 [], .advance 4 [], .advance 4 [], .commit 4, .advance 3 [], .advance 3 "code".toList, .commit 3,
    .start (.redeem exampleCodeRequest 1), .advance 5 [], .advance 5 "token".toList, .commit 5]

theorem outlived_isSome : (outlived.foldlM (State.step exampleCrates) signedInUser).isSome = true := by
  decide

/-- The application has a token after the change of the password that ended the session. -/
theorem password_fence_outlived : ¬∀ (crates : Crates) (s s' : State) (actions : List Action), Idle s →
    Run (fun s a s' => s.step crates a = some s') s actions s' → Fenced s' := by
  intro h
  have hfenced := h exampleCrates _ _ _ signedInUser_idle (Schemes.Runs.foldlM_getD_run outlived_isSome)
  have htokens : ((outlived.foldlM (State.step exampleCrates) signedInUser).getD signedInUser).tokens =
      [⟨5, "token".toList, some 1, some 2, "read".toList, 0, none, 0, .code 3 exampleCodeRequest 1⟩] := by
    decide
  have huser : ((outlived.foldlM (State.step exampleCrates) signedInUser).getD signedInUser).users.get 1 =
      some ⟨1, some 4, none, none, 1, 0⟩ := by decide
  have hdate := hfenced.tokens _ (by rw [htokens]; exact List.mem_singleton_self _) 1 rfl _ huser
  exact absurd hdate (by decide)

/-- Whether the grant that is committed is up to date. -/
def State.isUpToDate (s : State) : Action → Bool
  | .commit id => (s.requests.get id).all fun request =>
    match request.work with
    | .granted grant =>
      (s.users.get grant.resourceOwnerId).all fun user => decide (user.replacements ≤ grant.since)
    | _ => true
  | _ => true

theorem grantUpToDate_of_isUpToDate (h : s.isUpToDate a = true) : GrantUpToDate s a := by
  rintro id request grant rfl hget hwork user huser
  simpa [State.isUpToDate, hget, hwork, huser] using h

def State.fencedStep (crates : Crates) (s : State) (a : Action) : Option State :=
  if s.isUpToDate a then s.step crates a else none

/-- A grant is redeemed while a reset mail is made out; its token is then spent, and the user signs in with the
    new password. -/
def recovered : List Action :=
  [.start (.consent "session".toList exampleGrantRequest), .advance 3 [], .advance 3 "code".toList, .commit 3,
    .start (.mail 1), .advance 4 [], .start (.redeem exampleCodeRequest 1), .advance 5 [], .commit 4,
    .advance 5 "token".toList, .commit 5, .start (.resetByToken 4), .advance 6 [], .advance 6 [], .advance 6 [],
    .advance 6 [], .commit 6, .start (.verify .signIn 1), .advance 7 [], .advance 7 "new".toList,
    .advance 7 "again".toList, .commit 7]

theorem recovered_isSome : (recovered.foldlM (State.fencedStep exampleCrates) signedInUser).isSome = true := by
  decide

theorem fencedStep_of_eq (h : s.fencedStep crates a = some s') : FencedStep crates s a s' := by
  rw [State.fencedStep] at h
  split at h
  · exact ⟨h, grantUpToDate_of_isUpToDate ‹_›⟩
  · cases h

theorem password_fence_recovered :
    Fenced ((recovered.foldlM (State.fencedStep exampleCrates) signedInUser).getD signedInUser) ∧
      ((recovered.foldlM (State.fencedStep exampleCrates) signedInUser).getD signedInUser).spent = [4] ∧
      (((recovered.foldlM (State.fencedStep exampleCrates) signedInUser).getD signedInUser).tokens.map
        fun token => token.revokedAt.isSome) = [true, false] := by
  have hrun : Run (FencedStep exampleCrates) signedInUser recovered _ :=
    (Schemes.Runs.foldlM_getD_run recovered_isSome).mono fun _ _ _ => fencedStep_of_eq
  exact ⟨password_fence hrun signedInUser_idle, by decide, by decide⟩

end Rustodon.OAuth
