import Rustodon.OAuth.Fence

/-! @src mastodon/write_repository.rs, write_repository/auth.rs | name:Authorization codes are redeemed once |
    scheme:locks,runs | family:oauth

    A redemption has the row of the grant to itself from the statement that reads it until the grant is
    revoked and the token is there. So what has been checked still holds when the token is issued, and no
    other redemption finds the grant. -/

namespace Rustodon.OAuth
open Schemes.Bytes (utf8)
open Schemes.Runs (Run)
open Schemes.Tables (Table)
open Schemes.Utf8 (Text)

variable {crates : Crates} {s s' : State} {a : Action} {id : ℕ} {work work' : Work} {grant : AccessGrant}
  {application : OAuthApplication} {codeRequest : CodeRequest} {now : ℤ} {token : AccessToken}

/-! ### What a token is bound to -/

/-- What the application allowed when the grant was created. -/
structure Permitted (application : OAuthApplication) (grant : AccessGrant) : Prop where
  applicationId : grant.applicationId = application.id
  redirectUri : grant.redirectUri ∈ splitWhitespace application.redirectUri
  challenge : application.confidential = false → grant.codeChallenge.isSome = true
  expiresIn : grant.expiresIn = 600
  scopes : ∃ scopes, grant.scopes = some scopes ∧ ∀ scope ∈ splitWhitespace scopes,
    scope ∈ splitWhitespace application.scopes ∧ scope ∈ oauthConfiguredScopes

/-- What the request that redeems a code, the grant and the application have in common. -/
structure Matches (crates : Crates) (application : OAuthApplication) (grant : AccessGrant)
    (request : CodeRequest) (now : ℤ) : Prop where
  clientId : request.clientId = application.uid
  applicationId : grant.applicationId = application.id
  secret : application.confidential = true → request.clientSecret.getD [] = application.secret
  redirectUri : request.redirectUri = grant.redirectUri
  time : now < grant.createdAt + grant.expiresIn * 1000000
  challenge : ∀ challenge, grant.codeChallenge = some challenge →
    ∃ v, request.codeVerifier = some v ∧ Schemes.Base64.encodeUrl (crates.sha256 (utf8 v)) = challenge

/-- The token is for what the grant is for. -/
structure Conveys (grant : AccessGrant) (token : AccessToken) : Prop where
  resourceOwnerId : token.resourceOwnerId = some grant.resourceOwnerId
  applicationId : token.applicationId = some grant.applicationId
  scopes : grant.scopes = some token.scopes

/-- All of it, for one application. -/
structure Bound (crates : Crates) (application : OAuthApplication) (grant : AccessGrant)
    (request : CodeRequest) (now : ℤ) (token : AccessToken) : Prop where
  permitted : Permitted application grant
  matched : Matches crates application grant request now
  conveyed : Conveys grant token

/-- A token that has been issued for a code. -/
def AccessToken.isFor (grantId : ℕ) (token : AccessToken) : Bool :=
  match token.origin with
  | .code id _ _ => id == grantId
  | _ => false

/-- A state from which a run can start: nobody is at work, and the tokens are from before. -/
structure Quiet (s : State) : Prop where
  requests : s.requests.rows = []
  applications : ∀ application ∈ s.applications, application.id < s.nextRequest
  ids : ∀ application ∈ s.applications, ∀ other ∈ s.applications, application.id = other.id → application = other
  uids : ∀ application ∈ s.applications, ∀ other ∈ s.applications, application.uid = other.uid →
    application = other
  grants : ∀ grant ∈ s.grants, grant.id < s.nextRequest ∧ ∃ application ∈ s.applications,
    Permitted application grant
  tokens : ∀ token ∈ s.tokens, token.origin = .earlier

/-! ### What requests know -/

def Known (crates : Crates) (s : State) (grant : AccessGrant) (request : CodeRequest) (now : ℤ) : Prop :=
  ∃ application ∈ s.applications, Matches crates application grant request now

def Knows (crates : Crates) (s : State) (id : ℕ) : Work → Prop
  | .granting _ _ request application scopes => application ∈ s.applications ∧ Allowed application request scopes
  | .granted grant => grant.id = id ∧ ∃ application ∈ s.applications, Permitted application grant
  | .redeeming grant request now | .redeemed grant request now _ => Known crates s grant request now
  | .issuing grant _ token => ∃ request now, token.origin = .code grant.id request now ∧
    Known crates s grant request now ∧ token.resourceOwnerId = some grant.resourceOwnerId ∧
    token.applicationId = some grant.applicationId ∧ token.scopes = grant.scopes.getD []
  | .signInToken _ token | .signedIn _ token _ => token.origin = .signIn
  | _ => True

structure Redeemed (crates : Crates) (s : State) : Prop where
  held : Held s
  applications : ∀ application ∈ s.applications, application.id < s.nextRequest
  ids : ∀ application ∈ s.applications, ∀ other ∈ s.applications, application.id = other.id → application = other
  uids : ∀ application ∈ s.applications, ∀ other ∈ s.applications, application.uid = other.uid →
    application = other
  grants : ∀ grant ∈ s.grants, s.Drawn grant.id ∧ ∃ application ∈ s.applications, Permitted application grant
  knows : ∀ request ∈ s.requests.rows, Knows crates s request.id request.work
  spent : ∀ token ∈ s.tokens, ∀ grantId, token.isFor grantId = true →
    s.Drawn grantId ∧ ∀ grant ∈ s.grants, grant.id = grantId → grant.revokedAt ≠ none
  bound : ∀ token ∈ s.tokens, ∀ grantId request now, token.origin = .code grantId request now →
    ∃ grant ∈ s.grants, ∃ application ∈ s.applications, grant.id = grantId ∧
      Bound crates application grant request now token
  once : ∀ grantId, (s.tokens.filter (·.isFor grantId)).length ≤ 1

theorem redeemed_of_quiet (h : Quiet s) : Redeemed crates s := by
  have hnone (value : ℕ) : s.requests.get value = none := by
    rw [Table.get, Schemes.Tables.find_eq_none, h.requests]
    simp
  have hnot (grantId : ℕ) : ∀ token ∈ s.tokens, token.isFor grantId ≠ true := by
    intro token htoken
    simp [AccessToken.isFor, h.tokens token htoken]
  refine ⟨held_of_idle h.requests, h.applications, h.ids, h.uids, ?_, ?_, ?_, ?_, ?_⟩
  · exact fun grant hgrant => ⟨⟨(h.grants grant hgrant).1, hnone _⟩, (h.grants grant hgrant).2⟩
  · simp [h.requests]
  · exact fun token htoken grantId hfor => absurd hfor (hnot grantId token htoken)
  · intro token htoken grantId request now horigin
    rw [h.tokens token htoken] at horigin
    cases horigin
  · intro grantId
    rw [List.filter_eq_nil_iff.mpr (hnot grantId)]
    exact Nat.zero_le _

/-! ### Statements -/

theorem Permitted.revoke (h : Permitted application grant) (revokedAt : Option ℤ) :
    Permitted application { grant with revokedAt } := ⟨h.1, h.2, h.3, h.4, h.5⟩

theorem Bound.revoke {request : CodeRequest} (h : Bound crates application grant request now token)
    (revokedAt : Option ℤ) : Bound crates application { grant with revokedAt } request now token :=
  ⟨h.permitted.revoke revokedAt, ⟨h.2.1, h.2.2, h.2.3, h.2.4, h.2.5, h.2.6⟩, ⟨h.3.1, h.3.2, h.3.3⟩⟩

theorem Known.mono {request : CodeRequest} (h : Known crates s grant request now)
    (hmono : ∀ application ∈ s.applications, application ∈ s'.applications) :
    Known crates s' grant request now := by
  obtain ⟨application, hmem, hmatches⟩ := h
  exact ⟨application, hmono _ hmem, hmatches⟩

/-- Applications only come. -/
theorem Knows.mono (h : Knows crates s id work)
    (hmono : ∀ application ∈ s.applications, application ∈ s'.applications) : Knows crates s' id work := by
  cases work with
  | granting userId since request application scopes => exact ⟨hmono _ h.1, h.2⟩
  | granted grant =>
    obtain ⟨hid, application, hmem, hpermitted⟩ := h
    exact ⟨hid, application, hmono _ hmem, hpermitted⟩
  | redeeming grant request now => exact Known.mono h hmono
  | redeemed grant request now revokedAt => exact Known.mono h hmono
  | issuing grant revokedAt token =>
    obtain ⟨request, now, horigin, hknown, hrest⟩ := h
    exact ⟨request, now, horigin, hknown.mono hmono, hrest⟩
  | signInToken _ _ | signedIn _ _ _ => exact h
  | verified _ _ | signingIn _ | replacing _ _ _ | consented _ _ _ | mailing _ | mailed _ _ _ => trivial

theorem Opened.knows (h : Opened crates s work) : Knows crates s id work := by
  cases h with
  | redeeming grant application request now hgrant happlication hid huid hcheck =>
    exact ⟨application, happlication, huid.symm, hid.symm, hcheck.secret, hcheck.redirectUri, hcheck.unexpired,
      hcheck.challenge⟩
  | verified _ _ _ _ _ | lockedByEmail _ | lockedByToken _ _ _ _ | consented _ _ _ | mailing _ => trivial

theorem Advanced.knows (h : Advanced s id work work') (hknows : Knows crates s id work) :
    Knows crates s id work' := by
  cases h with
  | token _ _ => rfl
  | session _ _ _ => exact hknows
  | allowed userId since request application scopes happlication hallowed => exact ⟨happlication, hallowed⟩
  | granted userId since request application scopes draw =>
    obtain ⟨hmem, hallowed⟩ := hknows
    exact ⟨rfl, application, hmem, rfl, hallowed.redirectUri, hallowed.challenge, rfl, scopes, rfl,
      hallowed.scopes⟩
  | redeemed grant request now => exact hknows
  | issuing grant request now revokedAt draw => exact ⟨request, now, rfl, hknows, rfl, rfl, rfl⟩
  | locked _ _ _ _ | lockedForChange _ | replaced _ _ _ _ _ | mailed _ _ _ => trivial

/-! ### Commits -/

theorem revokeIn_eq (grant : AccessGrant) (grants : List ℕ) (grantsAt : ℤ) :
    ∃ revokedAt, grant.revokeIn grants grantsAt = { grant with revokedAt } ∧
      (grant.revokedAt ≠ none → revokedAt ≠ none) := by
  unfold AccessGrant.revokeIn
  split
  · refine ⟨_, rfl, fun hrevoked hnone => hrevoked (Option.or_eq_none_iff.mp hnone).1⟩
  · exact ⟨grant.revokedAt, rfl, fun hrevoked => hrevoked⟩

theorem revokeAt_eq (grant : AccessGrant) (id : ℕ) (revokedAt : ℤ) :
    ∃ stamp, grant.revokeAt id revokedAt = { grant with revokedAt := stamp } ∧
      (grant.revokedAt ≠ none ∨ grant.id = id → stamp ≠ none) := by
  unfold AccessGrant.revokeAt
  split
  · exact ⟨some revokedAt, rfl, fun _ => Option.some_ne_none _⟩
  · rename_i hid
    refine ⟨grant.revokedAt, rfl, fun hor => ?_⟩
    rcases hor with hrevoked | heq
    · exact hrevoked
    · exact absurd heq hid

/-- The rows of grants that a commit leaves are those that were there, possibly revoked, and new ones. -/
theorem Applied.grants_eq (h : Applied s id work s') (hgrant : grant ∈ s'.grants) :
    (∃ old ∈ s.grants, ∃ revokedAt, grant = { old with revokedAt } ∧
      (old.revokedAt ≠ none → revokedAt ≠ none)) ∨ work = .granted grant := by
  cases h with
  | signedIn _ _ _ | mailed _ _ _ => exact .inl ⟨grant, hgrant, grant.revokedAt, rfl, fun h => h⟩
  | granted new =>
    rcases List.mem_append.mp hgrant with hold | hnew
    · exact .inl ⟨grant, hold, grant.revokedAt, rfl, fun h => h⟩
    · obtain rfl := List.mem_singleton.mp hnew
      exact .inr rfl
  | replaced userId resetToken sessions tokens tokensAt grants grantsAt =>
    obtain ⟨old, hold, rfl⟩ := List.mem_map.mp hgrant
    obtain ⟨revokedAt, heq, hkeep⟩ := revokeIn_eq old grants grantsAt
    exact .inl ⟨old, hold, revokedAt, heq, hkeep⟩
  | issued other revokedAt token =>
    obtain ⟨old, hold, rfl⟩ := List.mem_map.mp hgrant
    obtain ⟨stamp, heq, hkeep⟩ := revokeAt_eq old other.id revokedAt
    exact .inl ⟨old, hold, stamp, heq, fun hrevoked => hkeep (.inl hrevoked)⟩

/-- No row of a grant is lost. -/
theorem Applied.grants_kept (h : Applied s id work s') (hgrant : grant ∈ s.grants) :
    ∃ revokedAt, { grant with revokedAt } ∈ s'.grants := by
  cases h with
  | signedIn _ _ _ | mailed _ _ _ => exact ⟨grant.revokedAt, hgrant⟩
  | granted new => exact ⟨grant.revokedAt, List.mem_append_left _ hgrant⟩
  | replaced userId resetToken sessions tokens tokensAt grants grantsAt =>
    obtain ⟨revokedAt, heq, -⟩ := revokeIn_eq grant grants grantsAt
    exact ⟨revokedAt, heq ▸ List.mem_map_of_mem hgrant⟩
  | issued other revokedAt token =>
    obtain ⟨stamp, heq, -⟩ := revokeAt_eq grant other.id revokedAt
    exact ⟨stamp, heq ▸ List.mem_map_of_mem hgrant⟩

/-- The rows of tokens that a commit leaves are those that were there, possibly revoked, and new ones. -/
theorem Applied.tokens_eq (h : Applied s id work s') (hknows : Knows crates s id work)
    (htoken : token ∈ s'.tokens) :
    (∃ old ∈ s.tokens, ∃ revokedAt, token = { old with revokedAt }) ∨ token.origin = .signIn ∨
      ∃ grant revokedAt, work = .issuing grant revokedAt token := by
  cases h with
  | granted _ | mailed _ _ _ => exact .inl ⟨token, htoken, token.revokedAt, rfl⟩
  | signedIn password new session =>
    rcases List.mem_append.mp htoken with hold | hnew
    · exact .inl ⟨token, hold, token.revokedAt, rfl⟩
    · obtain rfl := List.mem_singleton.mp hnew
      exact .inr (.inl hknows)
  | replaced userId resetToken sessions tokens tokensAt grants grantsAt =>
    obtain ⟨old, hold, rfl⟩ := List.mem_map.mp htoken
    refine .inl ⟨old, hold, ?_⟩
    unfold AccessToken.revokeIn
    split
    · exact ⟨_, rfl⟩
    · exact ⟨old.revokedAt, rfl⟩
  | issued grant revokedAt new =>
    rcases List.mem_append.mp htoken with hold | hnew
    · exact .inl ⟨token, hold, token.revokedAt, rfl⟩
    · obtain rfl := List.mem_singleton.mp hnew
      exact .inr (.inr ⟨grant, revokedAt, rfl⟩)

/-- What a redemption issues is bound to the grant, which nobody else can have redeemed or revoked. -/
theorem Redeemed.issued (h : Redeemed crates s) (request : Request) {revokedAt : ℤ}
    (hget : s.requests.get request.id = some request) (hwork : request.work = .issuing grant revokedAt token) :
    grant ∈ s.grants ∧ grant.revokedAt = none ∧ ∃ codeRequest now, token.origin = .code grant.id codeRequest now ∧
      ∃ application ∈ s.applications, Bound crates application grant codeRequest now token := by
  have hmem := mem_requests_of_get hget
  obtain ⟨hgrant, hunrevoked⟩ := h.held.redeeming request hmem grant (by rw [hwork]; rfl)
  have hknows := h.knows request hmem
  rw [hwork] at hknows
  obtain ⟨codeRequest, now, horigin, ⟨application, happlication, hmatches⟩, howner, hid, hscopes⟩ := hknows
  obtain ⟨-, permitting, hpermitting, hpermitted⟩ := h.grants grant hgrant
  obtain rfl := h.ids application happlication permitting hpermitting
    (hmatches.applicationId.symm.trans hpermitted.applicationId)
  refine ⟨hgrant, hunrevoked, codeRequest, now, horigin, application, happlication, hpermitted, hmatches, howner,
    hid, ?_⟩
  obtain ⟨scopes, hsome, -⟩ := hpermitted.scopes
  rw [hscopes, hsome]
  rfl

theorem isFor_eq {old : AccessToken} (revokedAt : Option ℤ) (grantId : ℕ) :
    AccessToken.isFor grantId { old with revokedAt } = old.isFor grantId := rfl

theorem isFor_revokeIn (tokens : List ℕ) (tokensAt : ℤ) (grantId : ℕ) :
    (AccessToken.isFor grantId ∘ AccessToken.revokeIn tokens tokensAt) = AccessToken.isFor grantId := by
  funext token
  rw [Function.comp_apply, AccessToken.revokeIn]
  split
  · exact isFor_eq _ _
  · rfl

theorem isFor_of_origin {grantId : ℕ} (h : token.origin = .code id codeRequest now) :
    token.isFor grantId = true ↔ id = grantId := by
  simp [AccessToken.isFor, h]

theorem isFor_iff {grantId : ℕ} :
    token.isFor grantId = true ↔ ∃ codeRequest now, token.origin = .code grantId codeRequest now := by
  constructor
  · intro h
    unfold AccessToken.isFor at h
    split at h
    · rename_i other codeRequest now horigin
      obtain rfl := beq_iff_eq.mp h
      exact ⟨codeRequest, now, horigin⟩
    · cases h
  · rintro ⟨codeRequest, now, horigin⟩
    exact (isFor_of_origin horigin).mpr rfl

theorem Redeemed.commit {request : Request} {after : State} (h : Redeemed crates s)
    (hget : s.requests.get request.id = some request) (happlied : Applied s request.id request.work after)
    (hdrawn : ∀ value, s.Drawn value → (after.finish request.id).Drawn value)
    (hnew : (after.finish request.id).Drawn request.id) : Redeemed crates (after.finish request.id) := by
  have hmem := mem_requests_of_get hget
  have hknows := h.knows request hmem
  obtain ⟨hrequests, hnext, happlications⟩ := happlied.requests
  have hmono : ∀ application ∈ s.applications, application ∈ (after.finish request.id).applications := by
    rw [State.finish, happlications]
    exact fun application happlication => happlication
  refine ⟨h.held.finish hget happlied, ?_, ?_, ?_, ?_, ?_, ?_, ?_, ?_⟩
  · rw [State.finish, happlications, hnext]
    exact h.applications
  · rw [State.finish, happlications]
    exact h.ids
  · rw [State.finish, happlications]
    exact h.uids
  · intro grant hgrant
    rcases happlied.grants_eq hgrant with ⟨old, hold, revokedAt, rfl, -⟩ | hwork
    · obtain ⟨hid, application, happlication, hpermitted⟩ := h.grants old hold
      exact ⟨hdrawn _ hid, application, hmono _ happlication, hpermitted.revoke revokedAt⟩
    · rw [hwork] at hknows
      obtain ⟨hid, application, happlication, hpermitted⟩ := hknows
      exact ⟨hid ▸ hnew, application, hmono _ happlication, hpermitted⟩
  · intro other hother
    rw [State.finish, hrequests] at hother
    exact (h.knows other (Table.mem_erase.mp hother).1).mono hmono
  · intro token htoken grantId hfor
    rcases happlied.tokens_eq hknows htoken with ⟨old, hold, revokedAt, rfl⟩ | horigin | ⟨grant, revokedAt, hwork⟩
    · obtain ⟨hid, hspent⟩ := h.spent old hold grantId hfor
      refine ⟨hdrawn _ hid, fun grant hgrant heq => ?_⟩
      rcases happlied.grants_eq hgrant with ⟨before, hbefore, stamp, rfl, hkeep⟩ | hwork
      · exact hkeep (hspent before hbefore heq)
      · rw [hwork] at hknows
        exact absurd (heq.symm.trans hknows.1) (hid.ne hget)
    · obtain ⟨codeRequest, now, hcode⟩ := isFor_iff.mp hfor
      rw [horigin] at hcode
      cases hcode
    · obtain ⟨hgrant, -, codeRequest, now, horigin, -⟩ := h.issued request hget hwork
      obtain rfl := (isFor_of_origin horigin).mp hfor
      refine ⟨hdrawn _ (h.grants grant hgrant).1, fun other hother heq => ?_⟩
      rw [hwork] at happlied
      cases happlied with
      | issued =>
        obtain ⟨old, hold, rfl⟩ := List.mem_map.mp hother
        obtain ⟨stamp, hstamp, hkeep⟩ := revokeAt_eq old grant.id revokedAt
        rw [hstamp] at heq ⊢
        exact hkeep (.inr heq)
  · intro token htoken grantId codeRequest now horigin
    rcases happlied.tokens_eq hknows htoken with ⟨old, hold, revokedAt, rfl⟩ | hsignIn | ⟨grant, revokedAt, hwork⟩
    · obtain ⟨grant, hgrant, application, happlication, hid, hbound⟩ := h.bound old hold grantId codeRequest now horigin
      obtain ⟨stamp, hkept⟩ := happlied.grants_kept hgrant
      have hconveys : Conveys grant { old with revokedAt } := ⟨hbound.3.1, hbound.3.2, hbound.3.3⟩
      have hbound : Bound crates application grant codeRequest now { old with revokedAt } :=
        ⟨hbound.permitted, hbound.matched, hconveys⟩
      exact ⟨_, hkept, application, hmono _ happlication, hid, hbound.revoke stamp⟩
    · rw [hsignIn] at horigin
      cases horigin
    · obtain ⟨hgrant, -, request', now', hcode, application, happlication, hbound⟩ := h.issued request hget hwork
      rw [hcode] at horigin
      obtain ⟨rfl, rfl, rfl⟩ := Origin.code.inj horigin
      obtain ⟨stamp, hkept⟩ := happlied.grants_kept hgrant
      exact ⟨_, hkept, application, hmono _ happlication, rfl, hbound.revoke stamp⟩
  · intro grantId
    obtain ⟨id, work⟩ := request
    dsimp only at happlied hget hknows
    cases happlied with
    | granted _ | mailed _ _ _ => exact h.once grantId
    | signedIn password token session =>
      have hfor : token.isFor grantId = false := by
        rw [Knows] at hknows
        simp [AccessToken.isFor, hknows]
      simpa [State.finish, List.filter_append, hfor] using h.once grantId
    | replaced userId resetToken sessions tokens tokensAt grants grantsAt =>
      have hmap := h.once grantId
      rw [State.finish, List.filter_map, List.length_map, isFor_revokeIn]
      exact hmap
    | issued grant revokedAt token =>
      obtain ⟨hgrant, hunrevoked, codeRequest, now, horigin, -⟩ := h.issued ⟨id, _⟩ hget rfl
      rw [State.finish, List.filter_append]
      by_cases heq : grant.id = grantId
      · have hnone : s.tokens.filter (·.isFor grantId) = [] := by
          refine List.filter_eq_nil_iff.mpr fun token htoken hfor => ?_
          exact (h.spent token htoken grantId hfor).2 grant hgrant heq hunrevoked
        rw [hnone, List.nil_append]
        exact (List.length_filter_le _ _)
      · have hfor : token.isFor grantId = false :=
          Bool.eq_false_iff.mpr fun hfor => heq ((isFor_of_origin horigin).mp hfor)
        simpa [hfor] using h.once grantId

/-! ### Steps -/

/-- A step that leaves grants and tokens alone. -/
theorem Redeemed.frame (h : Redeemed crates s) (hheld : Held s')
    (hdrawn : ∀ value, s.Drawn value → s'.Drawn value) (hgrants : s'.grants = s.grants)
    (htokens : s'.tokens = s.tokens) (happlications : s'.applications = s.applications)
    (hnext : s.nextRequest ≤ s'.nextRequest)
    (hknows : ∀ request ∈ s'.requests.rows, Knows crates s request.id request.work) : Redeemed crates s' := by
  refine ⟨hheld, ?_, ?_, ?_, ?_, ?_, ?_, ?_, ?_⟩
  · rw [happlications]
    exact fun application happlication => lt_of_lt_of_le (h.applications application happlication) hnext
  · rw [happlications]
    exact h.ids
  · rw [happlications]
    exact h.uids
  · rw [hgrants, happlications]
    exact fun grant hgrant => ⟨hdrawn _ (h.grants grant hgrant).1, (h.grants grant hgrant).2⟩
  · exact fun request hrequest => (hknows request hrequest).mono (by rw [happlications]; exact fun _ hmem => hmem)
  · rw [hgrants, htokens]
    exact fun token htoken grantId hfor =>
      ⟨hdrawn _ (h.spent token htoken grantId hfor).1, (h.spent token htoken grantId hfor).2⟩
  · rw [hgrants, htokens, happlications]
    exact h.bound
  · rw [htokens]
    exact h.once

/-- An application that is new has an id and a uid that no other has. -/
theorem Redeemed.register (h : Redeemed crates s) (hid : application.id = s.nextRequest)
    (huid : ∀ other ∈ s.applications, other.uid ≠ application.uid)
    (hheld : Held { s with
      applications := s.applications ++ [application], nextRequest := s.nextRequest + 1 })
    (hdrawn : ∀ value, s.Drawn value → State.Drawn { s with
      applications := s.applications ++ [application], nextRequest := s.nextRequest + 1 } value) :
    Redeemed crates { s with
      applications := s.applications ++ [application], nextRequest := s.nextRequest + 1 } := by
  have hmono : ∀ other ∈ s.applications, other ∈ s.applications ++ [application] :=
    fun other hother => List.mem_append_left _ hother
  have hids : ∀ other ∈ s.applications, other.id ≠ application.id :=
    fun other hother heq => absurd (h.applications other hother) (by omega)
  refine ⟨hheld, ?_, ?_, ?_, ?_, ?_, ?_, ?_, h.once⟩
  · intro other hother
    rcases List.mem_append.mp hother with hold | hnew
    · exact Nat.lt_succ_of_lt (h.applications other hold)
    · obtain rfl := List.mem_singleton.mp hnew
      exact hid ▸ Nat.lt_succ_self _
  · intro first hfirst second hsecond heq
    rcases List.mem_append.mp hfirst with hold | hnew <;> rcases List.mem_append.mp hsecond with hold' | hnew'
    · exact h.ids first hold second hold' heq
    · obtain rfl := List.mem_singleton.mp hnew'
      exact absurd heq (hids first hold)
    · obtain rfl := List.mem_singleton.mp hnew
      exact absurd heq.symm (hids second hold')
    · rw [List.mem_singleton.mp hnew, List.mem_singleton.mp hnew']
  · intro first hfirst second hsecond heq
    rcases List.mem_append.mp hfirst with hold | hnew <;> rcases List.mem_append.mp hsecond with hold' | hnew'
    · exact h.uids first hold second hold' heq
    · obtain rfl := List.mem_singleton.mp hnew'
      exact absurd heq (huid first hold)
    · obtain rfl := List.mem_singleton.mp hnew
      exact absurd heq.symm (huid second hold')
    · rw [List.mem_singleton.mp hnew, List.mem_singleton.mp hnew']
  · intro grant hgrant
    obtain ⟨hgrantId, other, hother, hpermitted⟩ := h.grants grant hgrant
    exact ⟨hdrawn _ hgrantId, other, hmono _ hother, hpermitted⟩
  · exact fun request hrequest => (h.knows request hrequest).mono hmono
  · exact fun token htoken grantId hfor =>
      ⟨hdrawn _ (h.spent token htoken grantId hfor).1, (h.spent token htoken grantId hfor).2⟩
  · intro token htoken grantId request now horigin
    obtain ⟨grant, hgrant, other, hother, hrest⟩ := h.bound token htoken grantId request now horigin
    exact ⟨grant, hgrant, other, hmono _ hother, hrest⟩

theorem Redeemed.change (h : Redeemed crates s) (hchange : Change crates s a s') : Redeemed crates s' := by
  have hheld := h.held.change hchange
  have hdrawn : ∀ value, s.Drawn value → s'.Drawn value := fun value hvalue => hvalue.change hchange
  cases hchange with
  | ticked now => exact h.frame hheld hdrawn rfl rfl rfl le_rfl h.knows
  | registered application hid huid => exact h.register hid huid hheld hdrawn
  | started work requests hopened hfree hinsert =>
    refine h.frame hheld hdrawn rfl rfl rfl (Nat.le_succ _) fun request hrequest => ?_
    obtain ⟨-, hrows⟩ := Table.get_of_insert hinsert
    rw [hrows, List.mem_append, List.mem_singleton] at hrequest
    rcases hrequest with hold | rfl
    · exact h.knows request hold
    · exact hopened.knows
  | advanced request work hget hadvanced hfree =>
    refine h.frame hheld hdrawn rfl rfl rfl le_rfl fun other hother => ?_
    rcases mem_put hother with rfl | ⟨hold, -⟩
    · exact hadvanced.knows (h.knows request (mem_requests_of_get hget))
    · exact h.knows other hold
  | committed request after _ hget happlied =>
    exact h.commit hget happlied hdrawn (drawn_of_finish h.held hget happlied)
  | aborted id =>
    exact h.frame hheld hdrawn rfl rfl rfl le_rfl fun request hrequest =>
      h.knows request (Table.mem_erase.mp hrequest).1

/-- What a step issues for a code, it issues while the grant is there and has not been revoked. -/
theorem Redeemed.issues {grantId : ℕ} (h : Redeemed crates s) (hchange : Change crates s a s')
    (htokens : s'.tokens = s.tokens ++ [token]) (horigin : token.origin = .code grantId codeRequest now) :
    ∃ grant ∈ s.grants, ∃ application ∈ s.applications, grant.id = grantId ∧ grant.revokedAt = none ∧
      Bound crates application grant codeRequest now token := by
  have hsame (heq : s'.tokens.length = s.tokens.length) : False := by
    rw [htokens, List.length_append, List.length_singleton] at heq
    omega
  cases hchange with
  | ticked _ | registered _ _ _ | started _ _ _ _ _ | advanced _ _ _ _ _ | aborted _ => exact (hsame rfl).elim
  | committed request after _ hget happlied =>
    have hknows := h.knows request (mem_requests_of_get hget)
    obtain ⟨id, work⟩ := request
    dsimp only at happlied hget hknows
    cases happlied with
    | granted _ | mailed _ _ _ => exact (hsame rfl).elim
    | replaced _ _ _ _ _ _ _ => exact (hsame (List.length_map _)).elim
    | signedIn password new session =>
      obtain rfl := List.singleton_inj.mp (List.append_cancel_left htokens)
      rw [Knows] at hknows
      rw [hknows] at horigin
      cases horigin
    | issued grant revokedAt new =>
      obtain rfl := List.singleton_inj.mp (List.append_cancel_left htokens)
      obtain ⟨hgrant, hunrevoked, request', now', hcode, application, happlication, hbound⟩ := h.issued ⟨id, _⟩ hget rfl
      rw [hcode] at horigin
      obtain ⟨rfl, rfl, rfl⟩ := Origin.code.inj horigin
      exact ⟨grant, hgrant, application, happlication, rfl, hunrevoked, hbound⟩

/-- CORRECT (codes): in every run, at most one token is issued for a grant; every token that is issued for a
    code is bound to the grant, to the request and to the only application that the request can name; and the
    step that issues it finds the grant unrevoked. -/
theorem authorization_codes_bound {actions : List Action}
    (h : Run (fun s a s' => s.step crates a = some s') s actions s') (hquiet : Quiet s) :
    (∀ grantId, (s'.tokens.filter (·.isFor grantId)).length ≤ 1) ∧
    (∀ token ∈ s'.tokens, ∀ grantId request now, token.origin = .code grantId request now →
      ∃ grant ∈ s'.grants, ∃ application ∈ s'.applications, grant.id = grantId ∧
        Bound crates application grant request now token) ∧
    (∀ a s'' token grantId request now, s'.step crates a = some s'' → s''.tokens = s'.tokens ++ [token] →
      token.origin = .code grantId request now →
      ∃ grant ∈ s'.grants, ∃ application ∈ s'.applications, grant.id = grantId ∧ grant.revokedAt = none ∧
        Bound crates application grant request now token) ∧
    ∀ application ∈ s'.applications, ∀ other ∈ s'.applications, application.uid = other.uid →
      application = other := by
  have hredeemed : Redeemed crates s' :=
    h.preserves (P := Redeemed crates) (fun _ _ _ hinit hstep => hinit.change (step_change hstep))
      (redeemed_of_quiet hquiet)
  refine ⟨hredeemed.once, hredeemed.bound, ?_, hredeemed.uids⟩
  intro a s'' token grantId request now hstep htokens horigin
  exact hredeemed.issues (step_change hstep) htokens horigin

/-- An application registers, a grant is created for it and redeemed, and the code is presented again. -/
def redeemedOnce : List Action :=
  [.register ⟨"App".toList, "urn:ietf:wg:oauth:2.0:oob".toList, "read write".toList, none⟩ "other".toList
      "hidden".toList,
    .start (.consent "session".toList ⟨"other".toList, "urn:ietf:wg:oauth:2.0:oob".toList,
      some "write read write".toList, none, none⟩), .advance 4 [], .advance 4 "code".toList, .commit 4,
    .start (.redeem ⟨"other".toList, some "hidden".toList, "code".toList, "urn:ietf:wg:oauth:2.0:oob".toList,
      none⟩ 7), .advance 5 [], .advance 5 "token".toList, .commit 5]

theorem redeemedOnce_isSome : (redeemedOnce.foldlM (State.step exampleCrates) signedInUser).isSome = true := by
  decide

theorem signedInUser_quiet : Quiet signedInUser := by
  refine ⟨rfl, by simp [signedInUser], by simp [signedInUser], by simp [signedInUser], by simp [signedInUser],
    by simp [signedInUser]⟩

theorem authorization_codes_bound_once :
    (((redeemedOnce.foldlM (State.step exampleCrates) signedInUser).getD signedInUser).tokens.filter
      (·.isFor 4)).length ≤ 1 ∧
    (((redeemedOnce.foldlM (State.step exampleCrates) signedInUser).getD signedInUser).tokens.map (·.scopes)) =
      ["write read".toList] :=
  ⟨(authorization_codes_bound (Schemes.Runs.foldlM_getD_run redeemedOnce_isSome) signedInUser_quiet).1 4,
    by decide⟩

end Rustodon.OAuth
