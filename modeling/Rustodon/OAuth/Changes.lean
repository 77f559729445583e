import Rustodon.OAuth.Machine

/-! @src mastodon/write_repository.rs, write_repository/auth.rs | name:What a step of a request does |
    scheme:locks,tables | family:oauth

    Steps read off their outcome, and what the locks of requests say of any state: a grant that is being
    redeemed is there and has not been revoked. -/

namespace Rustodon.OAuth
open Schemes.Locks (Compatible grantable)
open Schemes.Tables (Table)
open Schemes.Utf8 (Text)

variable {crates : Crates} {s s' : State} {a : Action} {id : ℕ} {draw : Text} {work work' : Work}
  {first : Start} {request : Request} {grant : AccessGrant}

/-! ### Inversion -/

/-- What the first statement of a request has found. -/
inductive Opened (crates : Crates) (s : State) : Work → Prop where
  | verified (purpose : Purpose) (user : User) (encryptedPassword : ℕ) (hget : s.users.get user.id = some user)
      (hpassword : user.encryptedPassword = some encryptedPassword) :
      Opened crates s (.verified purpose ⟨user.id, encryptedPassword, user.replacements⟩)
  | lockedByEmail (userId : ℤ) : Opened crates s (.replacing userId none .locked)
  | lockedByToken (token : ℕ) (user : User) (hget : s.users.get user.id = some user)
      (htoken : user.resetPasswordToken = some token) :
      Opened crates s (.replacing user.id (some token) .locked)
  | consented (session : SessionActivation) (request : GrantRequest) (hsession : session ∈ s.sessions) :
      Opened crates s (.consented session.userId session.since request)
  | redeeming (grant : AccessGrant) (application : OAuthApplication) (request : CodeRequest) (now : ℤ)
      (hgrant : grant ∈ s.grants) (happlication : application ∈ s.applications)
      (hid : application.id = grant.applicationId) (huid : application.uid = request.clientId)
      (hcheck : Redeemable crates.sha256 application grant request now) :
      Opened crates s (.redeeming grant request now)
  | mailing (userId : ℤ) : Opened crates s (.mailing userId)

theorem verify_opened {purpose : Purpose} {userId : ℤ} (h : s.verify purpose userId = some work) :
    Opened crates s work := by
  obtain ⟨user, hget, h⟩ := Option.bind_eq_some_iff.mp h
  obtain ⟨encryptedPassword, hpassword, h⟩ := Option.bind_eq_some_iff.mp h
  obtain rfl := Option.some.inj h
  obtain rfl := Table.key_of_get hget
  exact .verified purpose user encryptedPassword hget hpassword

theorem lockByEmail_opened {userId : ℤ} (h : s.lockByEmail userId = some work) : Opened crates s work := by
  obtain ⟨user, -, h⟩ := Option.bind_eq_some_iff.mp h
  split at h
  · obtain rfl := Option.some.inj h
    exact .lockedByEmail userId
  · cases h

theorem lockByToken_opened {token : ℕ} (h : s.lockByToken token = some work) : Opened crates s work := by
  obtain ⟨user, hfind, h⟩ := Option.bind_eq_some_iff.mp h
  obtain rfl := Option.some.inj h
  have hresets := List.find?_some hfind
  simp only [State.resets, Bool.and_eq_true, beq_iff_eq] at hresets
  exact .lockedByToken token user (Table.mem_iff_get.mp (List.mem_of_find?_eq_some hfind)) hresets.1.1

theorem readSession_opened {sessionId : Text} {request : GrantRequest}
    (h : s.readSession sessionId request = some work) : Opened crates s work := by
  obtain ⟨session, hfind, h⟩ := Option.bind_eq_some_iff.mp h
  obtain rfl := Option.some.inj h
  exact .consented session request (List.mem_of_find?_eq_some hfind)

theorem mem_of_application {applicationId : ℕ} {application : OAuthApplication}
    (h : s.application applicationId = some application) :
    application ∈ s.applications ∧ application.id = applicationId :=
  ⟨List.mem_of_find?_eq_some h, by simpa using List.find?_some h⟩

theorem lockGrant_opened {request : CodeRequest} {now : ℤ}
    (h : s.lockGrant crates request now = some work) : Opened crates s work := by
  obtain ⟨grant, hfind, h⟩ := Option.bind_eq_some_iff.mp h
  obtain ⟨application, happlication, h⟩ := Option.bind_eq_some_iff.mp h
  have hjoined := List.find?_some hfind
  simp only [State.joined, happlication, Option.any_some, Bool.and_eq_true, beq_iff_eq] at hjoined
  obtain ⟨hmem, hid⟩ := mem_of_application happlication
  split at h
  · rename_i hcheck
    obtain rfl := Option.some.inj h
    rw [Bool.and_eq_true] at hcheck
    cases hresult : checkCodeRequest crates.sha256 application grant request now with
    | error error =>
      rw [hresult] at hcheck
      exact absurd hcheck.2 (by simp [Except.isOk, Except.toBool])
    | ok _ =>
      exact .redeeming grant application request now (List.mem_of_find?_eq_some hfind) hmem hid hjoined.2
        (checkCodeRequest_redeemable hresult)
  · cases h

theorem lockForMail_opened {userId : ℤ} (h : s.lockForMail userId = some work) : Opened crates s work := by
  obtain ⟨user, -, h⟩ := Option.bind_eq_some_iff.mp h
  split at h
  · obtain rfl := Option.some.inj h
    exact .mailing userId
  · cases h

theorem opening_opened (h : s.opening crates first = some work) : Opened crates s work := by
  cases first with
  | verify purpose userId => exact verify_opened h
  | resetByEmail userId => exact lockByEmail_opened h
  | resetByToken token => exact lockByToken_opened h
  | consent sessionId request => exact readSession_opened h
  | redeem request now => exact lockGrant_opened h
  | mail userId => exact lockForMail_opened h

/-- What a further statement of a request has found. -/
inductive Advanced (s : State) (id : ℕ) : Work → Work → Prop where
  | locked (password : VerifiedPassword) (user : User) (hget : s.users.get password.userId = some user)
      (hpassword : user.encryptedPassword = some password.encryptedPassword) :
      Advanced s id (.verified .signIn password) (.signingIn password)
  | lockedForChange (password : VerifiedPassword) :
      Advanced s id (.verified .change password) (.replacing password.userId none .locked)
  | token (password : VerifiedPassword) (draw : Text) :
      Advanced s id (.signingIn password) (s.signInToken id draw password)
  | session (password : VerifiedPassword) (token : AccessToken) (draw : Text) :
      Advanced s id (.signInToken password token) (signInSession id draw password token)
  | replaced (userId : ℤ) (resetToken : Option ℕ) (progress progress' : Progress)
      (hreplace : s.replace userId progress = some progress') :
      Advanced s id (.replacing userId resetToken progress) (.replacing userId resetToken progress')
  | allowed (userId : ℤ) (since : ℕ) (request : GrantRequest) (application : OAuthApplication) (scopes : Text)
      (happlication : application ∈ s.applications) (hallowed : Allowed application request scopes) :
      Advanced s id (.consented userId since request) (.granting userId since request application scopes)
  | granted (userId : ℤ) (since : ℕ) (request : GrantRequest) (application : OAuthApplication) (scopes : Text)
      (draw : Text) :
      Advanced s id (.granting userId since request application scopes)
        (.granted ⟨id, application.id, request.codeChallenge, request.codeChallengeMethod, s.clock, 600,
          request.redirectUri, userId, none, some scopes, draw, since⟩)
  | redeemed (grant : AccessGrant) (request : CodeRequest) (now : ℤ) :
      Advanced s id (.redeeming grant request now) (.redeemed grant request now s.clock)
  | issuing (grant : AccessGrant) (request : CodeRequest) (now revokedAt : ℤ) (draw : Text) :
      Advanced s id (.redeemed grant request now revokedAt)
        (.issuing grant revokedAt
          ⟨id, draw, some grant.resourceOwnerId, some grant.applicationId, grant.scopes.getD [], s.clock, none,
            grant.since, .code grant.id request now⟩)
  | mailed (userId : ℤ) (user : User) (hget : s.users.get userId = some user) :
      Advanced s id (.mailing userId) (.mailed userId s.clock user.replacements)

theorem next_advanced (h : s.next id draw work = some work') : Advanced s id work work' := by
  cases work with
  | verified purpose password =>
    cases purpose with
    | signIn =>
      obtain ⟨user, hget, h⟩ := Option.bind_eq_some_iff.mp h
      split at h
      · rename_i hpassword
        obtain rfl := Option.some.inj h
        exact .locked password user hget hpassword
      · cases h
    | change =>
      obtain ⟨user, hget, h⟩ := Option.bind_eq_some_iff.mp h
      split at h
      · obtain rfl := Option.some.inj h
        exact .lockedForChange password
      · cases h
  | signingIn password =>
    obtain rfl := Option.some.inj h
    exact .token password draw
  | signInToken password token =>
    obtain rfl := Option.some.inj h
    exact .session password token draw
  | signedIn password token session => cases h
  | replacing userId resetToken progress =>
    obtain ⟨progress', hreplace, rfl⟩ := Option.map_eq_some_iff.mp h
    exact .replaced userId resetToken progress progress' hreplace
  | consented userId since request =>
    obtain ⟨application, hfind, h⟩ := Option.bind_eq_some_iff.mp h
    split at h
    · rename_i scopes hcheck
      obtain rfl := Option.some.inj h
      exact .allowed userId since request application scopes (List.mem_of_find?_eq_some hfind)
        (checkGrantRequest_allowed hcheck)
    · cases h
  | granting userId since request application scopes =>
    simp only [State.next, State.insertGrant] at h
    split at h
    · obtain rfl := Option.some.inj h
      exact .granted userId since request application scopes draw
    · cases h
  | granted grant => cases h
  | redeeming grant request now =>
    obtain rfl := Option.some.inj h
    exact .redeemed grant request now
  | redeemed grant request now revokedAt =>
    simp only [State.next, State.insertToken] at h
    split at h
    · obtain rfl := Option.some.inj h
      exact .issuing grant request now revokedAt draw
    · cases h
  | issuing grant revokedAt token => cases h
  | mailing userId =>
    obtain ⟨user, hget, rfl⟩ := Option.map_eq_some_iff.mp h
    exact .mailed userId user hget
  | mailed userId sentAt since => cases h

/-- What a commit has done. -/
inductive Applied (s : State) (id : ℕ) : Work → State → Prop where
  | signedIn (password : VerifiedPassword) (token : AccessToken) (session : SessionActivation) :
      Applied s id (.signedIn password token session)
        { s with tokens := s.tokens ++ [token], sessions := s.sessions ++ [session] }
  | replaced (userId : ℤ) (resetToken : Option ℕ) (sessions tokens : List ℕ) (tokensAt : ℤ) (grants : List ℕ)
      (grantsAt : ℤ) :
      Applied s id (.replacing userId resetToken (.revoked sessions tokens tokensAt grants grantsAt))
        { s with
          users := s.users.modify userId (User.replace id) (User.replace_id id)
          sessions := s.sessions.filter fun session => decide (session.id ∉ sessions)
          tokens := s.tokens.map (AccessToken.revokeIn tokens tokensAt)
          grants := s.grants.map (AccessGrant.revokeIn grants grantsAt)
          spent := s.spent ++ resetToken.toList }
  | granted (grant : AccessGrant) : Applied s id (.granted grant) { s with grants := s.grants ++ [grant] }
  | issued (grant : AccessGrant) (revokedAt : ℤ) (token : AccessToken) :
      Applied s id (.issuing grant revokedAt token)
        { s with
          grants := s.grants.map (AccessGrant.revokeAt grant.id revokedAt)
          tokens := s.tokens ++ [token] }
  | mailed (userId : ℤ) (sentAt : ℤ) (since : ℕ) :
      Applied s id (.mailed userId sentAt since)
        { s with users := s.users.modify userId (User.mail id sentAt since) (User.mail_id id sentAt since) }

theorem applied_of_eq (h : s.applied id work = some s') : Applied s id work s' := by
  unfold State.applied at h
  split at h
  · obtain rfl := Option.some.inj h
    exact .signedIn _ _ _
  · obtain rfl := Option.some.inj h
    exact .replaced _ _ _ _ _ _ _
  · obtain rfl := Option.some.inj h
    exact .granted _
  · obtain rfl := Option.some.inj h
    exact .issued _ _ _
  · obtain rfl := Option.some.inj h
    exact .mailed _ _ _
  · cases h

/-- What a step has done. -/
inductive Change (crates : Crates) (s : State) (a : Action) : State → Prop where
  | ticked (now : ℤ) : Change crates s a { s with clock := now }
  | registered (application : OAuthApplication) (hid : application.id = s.nextRequest)
      (huid : ∀ other ∈ s.applications, other.uid ≠ application.uid) :
      Change crates s a
        { s with applications := s.applications ++ [application], nextRequest := s.nextRequest + 1 }
  | started (work : Work) (requests : Table Request.id) (hopened : Opened crates s work)
      (hfree : grantable Request.locks s.requests s.nextRequest work.locks = true)
      (hinsert : s.requests.insert ⟨s.nextRequest, work⟩ = some requests) :
      Change crates s a { s with requests, nextRequest := s.nextRequest + 1 }
  | advanced (request : Request) (work : Work) (hget : s.requests.get request.id = some request)
      (hadvanced : Advanced s request.id request.work work)
      (hfree : grantable Request.locks s.requests request.id work.locks = true) :
      Change crates s a
        { s with requests := s.requests.modify request.id (fun request => { request with work }) fun _ => rfl }
  | committed (request : Request) (after : State) (ha : a = .commit request.id)
      (hget : s.requests.get request.id = some request) (happlied : Applied s request.id request.work after) :
      Change crates s a (after.finish request.id)
  | aborted (id : ℕ) : Change crates s a (s.finish id)

theorem step_change (h : s.step crates a = some s') : Change crates s a s' := by
  cases a with
  | tick now =>
    obtain rfl := Option.some.inj h
    exact .ticked now
  | register registration uid clientSecret =>
    simp only [State.step, State.register] at h
    split at h
    · rename_i hnew
      obtain ⟨application, happlication, rfl⟩ := Option.map_eq_some_iff.mp h
      unfold registerOauthApplication at happlication
      split at happlication
      · obtain rfl := Option.some.inj happlication
        exact .registered _ rfl (by simpa using hnew)
      · cases happlication
    · cases h
  | start first =>
    obtain ⟨work, hopening, h⟩ := Option.bind_eq_some_iff.mp h
    unfold State.begin at h
    split at h
    · rename_i hfree
      obtain ⟨requests, hinsert, rfl⟩ := Option.map_eq_some_iff.mp h
      exact .started work requests (opening_opened hopening) hfree hinsert
    · cases h
  | advance id draw =>
    obtain ⟨request, hget, h⟩ := Option.bind_eq_some_iff.mp h
    obtain ⟨work, hnext, h⟩ := Option.bind_eq_some_iff.mp h
    obtain rfl := Table.key_of_get hget
    unfold State.put at h
    split at h
    · rename_i hfree
      obtain rfl := Option.some.inj h
      exact .advanced request work hget (next_advanced hnext) hfree
    · cases h
  | commit id =>
    obtain ⟨request, hget, h⟩ := Option.bind_eq_some_iff.mp h
    obtain ⟨after, happlied, rfl⟩ := Option.map_eq_some_iff.mp h
    obtain rfl := Table.key_of_get hget
    exact .committed request after rfl hget (applied_of_eq happlied)
  | abort id =>
    obtain rfl := Option.some.inj h
    exact .aborted id

/-! ### Requests -/

theorem mem_put {r : Request}
    (h : r ∈ (s.requests.modify id (fun request => { request with work }) fun _ => rfl).rows) :
    r = ⟨id, work⟩ ∨ r ∈ s.requests.rows ∧ r.id ≠ id := by
  obtain ⟨old, hold, rfl⟩ := List.mem_map.mp h
  split
  · rename_i hid
    exact .inl (by rw [← hid])
  · rename_i hid
    exact .inr ⟨hold, hid⟩

theorem mem_requests_of_get (h : s.requests.get id = some request) : request ∈ s.requests.rows :=
  Table.mem_of_get h

/-- A value that a request has drawn, and the request is over. -/
def State.Drawn (s : State) (value : ℕ) : Prop := value < s.nextRequest ∧ s.requests.get value = none

theorem State.Drawn.ne {value : ℕ} (h : s.Drawn value) (hget : s.requests.get id = some request) :
    value ≠ id := by
  rintro rfl
  rw [h.2] at hget
  cases hget

/-- The grant that is being redeemed. -/
def Work.redeems : Work → Option AccessGrant
  | .redeeming grant _ _ | .redeemed grant _ _ _ | .issuing grant _ _ => some grant
  | _ => none

theorem mem_locks_of_redeems (h : work.redeems = some grant) :
    (.grant grant.id, .exclusive) ∈ work.locks := by
  cases work with
  | redeeming other _ _ | redeemed other _ _ _ | issuing other _ _ =>
    obtain rfl := Option.some.inj h
    exact List.mem_cons_self
  | verified _ _ | signingIn _ | signInToken _ _ | signedIn _ _ _ | replacing _ _ _ | consented _ _ _
  | granting _ _ _ _ _ | granted _ | mailing _ | mailed _ _ _ => cases h

theorem Opened.redeems (h : Opened crates s work) (hredeems : work.redeems = some grant) :
    grant ∈ s.grants ∧ grant.revokedAt = none := by
  cases h with
  | redeeming other application request now hgrant _ _ _ hcheck =>
    obtain rfl := Option.some.inj hredeems
    exact ⟨hgrant, hcheck.unrevoked⟩
  | verified _ _ _ _ _ | lockedByEmail _ | lockedByToken _ _ _ _ | consented _ _ _ | mailing _ => cases hredeems

theorem Advanced.redeems (h : Advanced s id work work') (hredeems : work'.redeems = some grant) :
    work.redeems = some grant := by
  cases h with
  | redeemed _ _ _ | issuing _ _ _ _ _ => exact hredeems
  | locked _ _ _ _ | lockedForChange _ | token _ _ | session _ _ _ | replaced _ _ _ _ _ | allowed _ _ _ _ _ _ _
  | granted _ _ _ _ _ _ | mailed _ _ _ => cases hredeems

theorem revokeIn_eq_self {grants : List ℕ} {grantsAt : ℤ} (h : grant.id ∉ grants) :
    grant.revokeIn grants grantsAt = grant := if_neg h

theorem revokeAt_eq_self {revokedAt : ℤ} (h : grant.id ≠ id) : grant.revokeAt id revokedAt = grant := if_neg h

/-- A commit leaves a grant alone that its request has not locked. -/
theorem Applied.mem_grants (h : Applied s id work s') (hgrant : grant ∈ s.grants)
    (hfree : (.grant grant.id, .exclusive) ∉ work.locks) : grant ∈ s'.grants := by
  cases h with
  | signedIn _ _ _ | mailed _ _ _ => exact hgrant
  | granted _ => exact List.mem_append_left _ hgrant
  | replaced userId resetToken sessions tokens tokensAt grants grantsAt =>
    refine List.mem_map.mpr ⟨grant, hgrant, revokeIn_eq_self fun hid => hfree ?_⟩
    exact List.mem_cons_of_mem _ (List.mem_map_of_mem hid)
  | issued other revokedAt token =>
    refine List.mem_map.mpr ⟨grant, hgrant, revokeAt_eq_self fun hid => hfree ?_⟩
    rw [hid]
    exact List.mem_cons_self

theorem Applied.requests (h : Applied s id work s') :
    s'.requests = s.requests ∧ s'.nextRequest = s.nextRequest ∧ s'.applications = s.applications := by
  cases h <;> exact ⟨rfl, rfl, rfl⟩

/-! ### What the locks say -/

structure Held (s : State) : Prop where
  locks : Compatible Request.locks s.requests
  ids : ∀ request ∈ s.requests.rows, request.id < s.nextRequest
  redeeming : ∀ request ∈ s.requests.rows, ∀ grant, request.work.redeems = some grant →
    grant ∈ s.grants ∧ grant.revokedAt = none

theorem held_of_idle (h : s.requests.rows = []) : Held s := by
  refine ⟨?_, ?_, ?_⟩
  · intro request hrequest
    rw [h] at hrequest
    cases hrequest
  · simp [h]
  · simp [h]

/-- Other requests are still there when one is over. -/
theorem Held.finish {request : Request} {after : State} (h : Held s)
    (hget : s.requests.get request.id = some request) (happlied : Applied s request.id request.work after) :
    Held (after.finish request.id) := by
  obtain ⟨hrequests, hnext, -⟩ := happlied.requests
  refine ⟨?_, ?_, ?_⟩
  · rw [State.finish, hrequests]
    exact h.locks.erase
  · intro other hother
    rw [State.finish, hrequests] at hother
    rw [State.finish, hnext]
    exact h.ids other (Table.mem_erase.mp hother).1
  · intro other hother grant hredeems
    rw [State.finish, hrequests] at hother
    obtain ⟨hmem, hne⟩ := Table.mem_erase.mp hother
    obtain ⟨hgrant, hrevoked⟩ := h.redeeming other hmem grant hredeems
    refine ⟨happlied.mem_grants hgrant ?_, hrevoked⟩
    exact h.locks.not_mem hmem (Table.mem_of_get hget) hne (mem_locks_of_redeems hredeems)

theorem Held.change (h : Held s) (hchange : Change crates s a s') : Held s' := by
  cases hchange with
  | ticked now => exact ⟨h.locks, h.ids, h.redeeming⟩
  | registered application hid huid =>
    exact ⟨h.locks, fun request hrequest => Nat.lt_succ_of_lt (h.ids request hrequest), h.redeeming⟩
  | started work requests hopened hfree hinsert =>
    obtain ⟨-, hrows⟩ := Table.get_of_insert hinsert
    refine ⟨h.locks.insert hinsert hfree, ?_, ?_⟩
    · intro request hrequest
      rw [hrows, List.mem_append, List.mem_singleton] at hrequest
      rcases hrequest with hrequest | rfl
      · exact Nat.lt_succ_of_lt (h.ids request hrequest)
      · exact Nat.lt_succ_self _
    · intro request hrequest grant hredeems
      rw [hrows, List.mem_append, List.mem_singleton] at hrequest
      rcases hrequest with hrequest | rfl
      · exact h.redeeming request hrequest grant hredeems
      · exact hopened.redeems hredeems
  | advanced request work hget hadvanced hfree =>
    have hmem := mem_requests_of_get hget
    refine ⟨h.locks.modify (f := fun request => { request with work }) (fun _ => rfl) (fun _ _ _ => rfl)
      hfree, ?_, ?_⟩
    · intro other hother
      rcases mem_put hother with rfl | ⟨hother, -⟩
      · exact h.ids request hmem
      · exact h.ids other hother
    · intro other hother grant hredeems
      rcases mem_put hother with rfl | ⟨hother, -⟩
      · exact h.redeeming request hmem grant (hadvanced.redeems hredeems)
      · exact h.redeeming other hother grant hredeems
  | committed request after _ hget happlied => exact h.finish hget happlied
  | aborted id =>
    refine ⟨h.locks.erase, ?_, ?_⟩
    · exact fun request hrequest => h.ids request (Table.mem_erase.mp hrequest).1
    · exact fun request hrequest => h.redeeming request (Table.mem_erase.mp hrequest).1

end Rustodon.OAuth
