import Rustodon.OAuth.Checks
import Rustodon.Schemes.Locks

/-! @src mastodon/write_repository.rs, write_repository/auth.rs, web/oauth.rs | name:Passwords and access |
    scheme:locks,tables | family:oauth

    Sign-ins, replacements of passwords, reset mails, grants and the redemption of their codes, a
    statement at a time. A statement reads what has been committed and waits for the rows that another
    transaction has locked; what a transaction writes, it keeps to itself until it commits. An insert that
    refers to a user takes `FOR KEY SHARE` on the row of the user. What is drawn at random for a password
    or a reset mail is named by the request that draws it, and so is a row by the request that inserts it.
    Web push subscriptions, stream events, the outbox and activities are left out. -/

namespace Rustodon.OAuth
open Schemes.Bytes (Bytes)
open Schemes.Locks (Mode grantable)
open Schemes.Tables (Table)
open Schemes.Utf8 (Text)

/-! ### Rows -/

structure User where
  id : ℤ
  /-- The hash, unless it is blank. -/
  encryptedPassword : Option ℕ
  resetPasswordToken : Option ℕ
  resetPasswordSentAt : Option ℤ
  /-- How often the password has been replaced. -/
  replacements : ℕ
  /-- How often it had been replaced when the reset mail was made out. -/
  resetSince : ℕ
  deriving DecidableEq

/-- What a token has been inserted for. -/
inductive Origin where
  | earlier
  | signIn
  /-- The code of a grant, on a request that has been checked when the clock of the host read so. -/
  | code (grantId : ℕ) (request : CodeRequest) (now : ℤ)
  deriving DecidableEq

structure AccessToken where
  id : ℕ
  token : Text
  resourceOwnerId : Option ℤ
  applicationId : Option ℕ
  scopes : Text
  createdAt : ℤ
  revokedAt : Option ℤ
  since : ℕ
  origin : Origin
  deriving DecidableEq

structure SessionActivation where
  id : ℕ
  accessTokenId : ℕ
  sessionId : Text
  userId : ℤ
  since : ℕ
  deriving DecidableEq

/-- A password check tied to the exact stored credential. -/
structure VerifiedPassword where
  userId : ℤ
  encryptedPassword : ℕ
  since : ℕ
  deriving DecidableEq

/-! ### Requests -/

inductive Purpose where
  | signIn
  | change
  deriving DecidableEq

/-- How far `replace_user_password_in` is, with the rows that it has found. -/
inductive Progress where
  | locked
  | replaced
  | signedOut (sessions : List ℕ)
  | detached (sessions tokens : List ℕ) (tokensAt : ℤ)
  | revoked (sessions tokens : List ℕ) (tokensAt : ℤ) (grants : List ℕ) (grantsAt : ℤ)
  deriving DecidableEq

/-- What a request has done. -/
inductive Work where
  | verified (purpose : Purpose) (password : VerifiedPassword)
  /-- `create_browser_session`. -/
  | signingIn (password : VerifiedPassword)
  | signInToken (password : VerifiedPassword) (token : AccessToken)
  | signedIn (password : VerifiedPassword) (token : AccessToken) (session : SessionActivation)
  /-- A replacement, and the reset token that it consumes. -/
  | replacing (userId : ℤ) (resetToken : Option ℕ) (progress : Progress)
  /-- The session of a user has been read for `create_oauth_authorization_grant`. -/
  | consented (userId : ℤ) (since : ℕ) (request : GrantRequest)
  | granting (userId : ℤ) (since : ℕ) (request : GrantRequest) (application : OAuthApplication)
      (scopes : Text)
  | granted (grant : AccessGrant)
  /-- `issue_oauth_authorization_code_token`. -/
  | redeeming (grant : AccessGrant) (request : CodeRequest) (now : ℤ)
  | redeemed (grant : AccessGrant) (request : CodeRequest) (now : ℤ) (revokedAt : ℤ)
  | issuing (grant : AccessGrant) (revokedAt : ℤ) (token : AccessToken)
  /-- `create_password_reset_token_with_job`. -/
  | mailing (userId : ℤ)
  | mailed (userId : ℤ) (sentAt : ℤ) (since : ℕ)
  deriving DecidableEq

structure Request where
  id : ℕ
  work : Work
  deriving DecidableEq

/-- The rows that are locked. -/
inductive Resource where
  | user (id : ℤ)
  | grant (id : ℕ)
  deriving DecidableEq

def Progress.locks : Progress → List (Resource × Mode)
  | .revoked _ _ _ grants _ => grants.map fun id => (.grant id, .exclusive)
  | _ => []

/-- `FOR UPDATE` is exclusive, and so is an update; `FOR KEY SHARE` is shared. -/
def Work.locks : Work → List (Resource × Mode)
  | .verified _ _ | .consented _ _ _ | .granting _ _ _ _ _ => []
  | .signingIn password | .signInToken password _ | .signedIn password _ _ => [(.user password.userId, .exclusive)]
  | .replacing userId _ progress => (.user userId, .exclusive) :: progress.locks
  | .granted grant => [(.user grant.resourceOwnerId, .shared)]
  | .redeeming grant _ _ | .redeemed grant _ _ _ => [(.grant grant.id, .exclusive)]
  | .issuing grant _ _ => [(.grant grant.id, .exclusive), (.user grant.resourceOwnerId, .shared)]
  | .mailing userId | .mailed userId _ _ => [(.user userId, .exclusive)]

def Request.locks (request : Request) : List (Resource × Mode) := request.work.locks

structure State where
  users : Table User.id
  applications : List OAuthApplication
  grants : List AccessGrant
  tokens : List AccessToken
  sessions : List SessionActivation
  requests : Table Request.id
  nextRequest : ℕ
  /-- `clock_timestamp()`. -/
  clock : ℤ
  /-- The reset tokens with which passwords have been replaced. -/
  spent : List ℕ

/-- What third-party crates compute. -/
structure Crates where
  sha256 : Bytes → Bytes
  parseUrl : Text → Option ParsedUrl

variable (crates : Crates) (s : State)

/-! ### The first statement of a request -/

inductive Start where
  /-- A password is verified against the hash that has been read. -/
  | verify (purpose : Purpose) (userId : ℤ)
  | resetByEmail (userId : ℤ)
  | resetByToken (token : ℕ)
  | consent (sessionId : Text) (request : GrantRequest)
  | redeem (request : CodeRequest) (now : ℤ)
  | mail (userId : ℤ)

def State.verify (purpose : Purpose) (userId : ℤ) : Option Work := do
  let user ← s.users.get userId
  let encryptedPassword ← user.encryptedPassword
  some (.verified purpose ⟨userId, encryptedPassword, user.replacements⟩)

def State.lockByEmail (userId : ℤ) : Option Work := do
  let user ← s.users.get userId
  if user.encryptedPassword.isSome then some (.replacing userId none .locked) else none

/-- The token is that of a user, and not older than six hours. -/
def State.resets (token : ℕ) (user : User) : Bool :=
  user.resetPasswordToken == some token && user.encryptedPassword.isSome &&
    user.resetPasswordSentAt.any fun sentAt => decide (s.clock - 6 * 3600 * 1000000 < sentAt)

def State.lockByToken (token : ℕ) : Option Work := do
  let user ← s.users.rows.find? (s.resets token)
  some (.replacing user.id (some token) .locked)

def State.readSession (sessionId : Text) (request : GrantRequest) : Option Work := do
  let session ← s.sessions.find? fun session => session.sessionId == sessionId
  some (.consented session.userId session.since request)

def State.application (id : ℕ) : Option OAuthApplication :=
  s.applications.find? fun application => application.id == id

/-- The grant of the code and the application that the request names. -/
def State.joined (request : CodeRequest) (grant : AccessGrant) : Bool :=
  grant.token == request.code && (s.application grant.applicationId).any fun application =>
    application.uid == request.clientId

def State.lockGrant (request : CodeRequest) (now : ℤ) : Option Work := do
  let grant ← s.grants.find? (s.joined request)
  let application ← s.application grant.applicationId
  if request.isPresent && (checkCodeRequest crates.sha256 application grant request now).isOk then
    some (.redeeming grant request now)
  else none

def State.lockForMail (userId : ℤ) : Option Work := do
  let user ← s.users.get userId
  if user.encryptedPassword.isSome then some (.mailing userId) else none

def State.opening : Start → Option Work
  | .verify purpose userId => s.verify purpose userId
  | .resetByEmail userId => s.lockByEmail userId
  | .resetByToken token => s.lockByToken token
  | .consent sessionId request => s.readSession sessionId request
  | .redeem request now => s.lockGrant crates request now
  | .mail userId => s.lockForMail userId

/-! ### Its other statements -/

/-- `lock_verified_password_in`. -/
def State.lockVerifiedPassword (password : VerifiedPassword) (work : Work) : Option Work := do
  let user ← s.users.get password.userId
  if user.encryptedPassword = some password.encryptedPassword then some work else none

def State.signInToken (id : ℕ) (draw : Text) (password : VerifiedPassword) : Work :=
  .signInToken password
    { id, token := draw, resourceOwnerId := some password.userId
      applicationId := ((s.applications.filter (·.superapp)).map (·.id)).min?
      scopes := "read write follow".toList, createdAt := s.clock, revokedAt := none
      since := password.since, origin := .signIn }

def signInSession (id : ℕ) (draw : Text) (password : VerifiedPassword) (token : AccessToken) : Work :=
  .signedIn password token
    { id, accessTokenId := token.id, sessionId := draw, userId := password.userId, since := password.since }

/-- A token that has been revoked is left alone. -/
def AccessToken.isLive (token : AccessToken) (userId : ℤ) : Bool :=
  token.resourceOwnerId == some userId && token.revokedAt.isNone

def AccessGrant.isLive (grant : AccessGrant) (userId : ℤ) : Bool :=
  grant.resourceOwnerId == userId && grant.revokedAt.isNone

/-- `replace_user_password_in`, a statement at a time. -/
def State.replace (userId : ℤ) : Progress → Option Progress
  | .locked => some .replaced
  | .replaced => some (.signedOut ((s.sessions.filter fun session => session.userId == userId).map (·.id)))
  | .signedOut sessions =>
    some (.detached sessions ((s.tokens.filter (·.isLive userId)).map (·.id)) s.clock)
  | .detached sessions tokens tokensAt =>
    some (.revoked sessions tokens tokensAt ((s.grants.filter (·.isLive userId)).map (·.id)) s.clock)
  | .revoked _ _ _ _ _ => none

def State.selectApplication (userId : ℤ) (since : ℕ) (request : GrantRequest) : Option Work := do
  let application ← s.applications.find? fun application => application.uid == request.clientId
  match checkGrantRequest application request with
  | .ok scopes => some (.granting userId since request application scopes)
  | .error _ => none

/-- No other grant has the code. -/
def State.isNewCode (code : Text) : Bool :=
  s.grants.all (fun grant => grant.token != code) && s.requests.rows.all fun request =>
    match request.work with
    | .granted grant => grant.token != code
    | _ => true

def State.insertGrant (id : ℕ) (draw : Text) (userId : ℤ) (since : ℕ) (request : GrantRequest)
    (application : OAuthApplication) (scopes : Text) : Option Work :=
  if s.isNewCode draw && (s.users.get userId).isSome then
    some (.granted
      { id, applicationId := application.id, codeChallenge := request.codeChallenge
        codeChallengeMethod := request.codeChallengeMethod, createdAt := s.clock, expiresIn := 600
        redirectUri := request.redirectUri, resourceOwnerId := userId, revokedAt := none
        scopes := some scopes, token := draw, since })
  else none

def State.insertToken (id : ℕ) (draw : Text) (grant : AccessGrant) (request : CodeRequest) (now revokedAt : ℤ) :
    Option Work :=
  if (s.users.get grant.resourceOwnerId).isSome then
    some (.issuing grant revokedAt
      { id, token := draw, resourceOwnerId := some grant.resourceOwnerId
        applicationId := some grant.applicationId, scopes := grant.scopes.getD [], createdAt := s.clock
        revokedAt := none, since := grant.since, origin := .code grant.id request now })
  else none

/-- The next statement of a request, and what is drawn at random for it. -/
def State.next (id : ℕ) (draw : Text) : Work → Option Work
  | .verified .signIn password => s.lockVerifiedPassword password (.signingIn password)
  | .verified .change password => s.lockVerifiedPassword password (.replacing password.userId none .locked)
  | .signingIn password => some (s.signInToken id draw password)
  | .signInToken password token => some (signInSession id draw password token)
  | .signedIn _ _ _ => none
  | .replacing userId resetToken progress => (s.replace userId progress).map (.replacing userId resetToken)
  | .consented userId since request => s.selectApplication userId since request
  | .granting userId since request application scopes =>
    s.insertGrant id draw userId since request application scopes
  | .granted _ => none
  | .redeeming grant request now => some (.redeemed grant request now s.clock)
  | .redeemed grant request now revokedAt => s.insertToken id draw grant request now revokedAt
  | .issuing _ _ _ => none
  | .mailing userId => (s.users.get userId).map fun user => .mailed userId s.clock user.replacements
  | .mailed _ _ _ => none

/-! ### Commits -/

def AccessToken.revokeIn (tokens : List ℕ) (tokensAt : ℤ) (token : AccessToken) : AccessToken :=
  if token.id ∈ tokens then { token with revokedAt := token.revokedAt.or (some tokensAt) } else token

def AccessGrant.revokeIn (grants : List ℕ) (grantsAt : ℤ) (grant : AccessGrant) : AccessGrant :=
  if grant.id ∈ grants then { grant with revokedAt := grant.revokedAt.or (some grantsAt) } else grant

/-- The code of a redeemed grant is spent. -/
def AccessGrant.revokeAt (id : ℕ) (revokedAt : ℤ) (grant : AccessGrant) : AccessGrant :=
  if grant.id = id then { grant with revokedAt := some revokedAt } else grant

def User.replace (id : ℕ) (user : User) : User :=
  { user with
    encryptedPassword := some id, resetPasswordToken := none, resetPasswordSentAt := none
    replacements := user.replacements + 1 }

theorem User.replace_id (id : ℕ) (user : User) : (user.replace id).id = user.id := rfl

def User.mail (id : ℕ) (sentAt : ℤ) (since : ℕ) (user : User) : User :=
  { user with resetPasswordToken := some id, resetPasswordSentAt := some sentAt, resetSince := since }

theorem User.mail_id (id : ℕ) (sentAt : ℤ) (since : ℕ) (user : User) :
    (user.mail id sentAt since).id = user.id := rfl

/-- What others find once a transaction has committed. -/
def State.applied (id : ℕ) : Work → Option State
  | .signedIn _ token session =>
    some { s with tokens := s.tokens ++ [token], sessions := s.sessions ++ [session] }
  | .replacing userId resetToken (.revoked sessions tokens tokensAt grants grantsAt) =>
    some
      { s with
        users := s.users.modify userId (User.replace id) (User.replace_id id)
        sessions := s.sessions.filter fun session => decide (session.id ∉ sessions)
        tokens := s.tokens.map (AccessToken.revokeIn tokens tokensAt)
        grants := s.grants.map (AccessGrant.revokeIn grants grantsAt)
        spent := s.spent ++ resetToken.toList }
  | .granted grant => some { s with grants := s.grants ++ [grant] }
  | .issuing grant revokedAt token =>
    some
      { s with
        grants := s.grants.map (AccessGrant.revokeAt grant.id revokedAt)
        tokens := s.tokens ++ [token] }
  | .mailed userId sentAt since =>
    some { s with users := s.users.modify userId (User.mail id sentAt since) (User.mail_id id sentAt since) }
  | _ => none

/-! ### Steps -/

inductive Action where
  | tick (now : ℤ)
  | register (registration : OAuthApplicationRegistration) (uid clientSecret : Text)
  | start (first : Start)
  | advance (id : ℕ) (draw : Text)
  | commit (id : ℕ)
  /-- An error, a deadlock or a crash. -/
  | abort (id : ℕ)

/-- A statement waits until its locks are granted. -/
def State.begin (work : Work) : Option State :=
  if grantable Request.locks s.requests s.nextRequest work.locks then
    (s.requests.insert ⟨s.nextRequest, work⟩).map fun requests =>
      { s with requests, nextRequest := s.nextRequest + 1 }
  else none

def State.put (id : ℕ) (work : Work) : Option State :=
  if grantable Request.locks s.requests id work.locks then
    some { s with requests := s.requests.modify id (fun request => { request with work }) fun _ => rfl }
  else none

def State.finish (id : ℕ) : State := { s with requests := s.requests.erase id }

def State.register (registration : OAuthApplicationRegistration) (uid clientSecret : Text) : Option State :=
  if s.applications.all fun application => application.uid != uid then
    (registerOauthApplication crates.parseUrl registration s.nextRequest uid clientSecret).map fun application =>
      { s with applications := s.applications ++ [application], nextRequest := s.nextRequest + 1 }
  else none

def State.step : Action → Option State
  | .tick now => some { s with clock := now }
  | .register registration uid clientSecret => s.register crates registration uid clientSecret
  | .start first => (s.opening crates first).bind s.begin
  | .advance id draw => do
    let request ← s.requests.get id
    (s.next id draw request.work).bind (s.put id)
  | .commit id => do
    let request ← s.requests.get id
    (s.applied id request.work).map (State.finish · id)
  | .abort id => some (s.finish id)

end Rustodon.OAuth
