import Mathlib.Logic.Function.Basic
import Rustodon.Ingest.Accounts
import Rustodon.Polls.LocalTallies
import Rustodon.Schemes.Runs
import Rustodon.Schemes.Tables

/-! @src mastodon/write_repository.rs | name:Votes on local polls | scheme:row locks, labelled runs |
    family:polls

    The transactions that vote on polls and that remove voters, statement by statement. A statement
    reads what is committed and what its own transaction has written; a transaction that locks the row
    of a poll or of an account keeps it locked until it ends. The advisory lock of a poll and a voter
    is left out: it only makes votes wait for each other that wait for the row of the account. -/

namespace Rustodon.Polls.Votes
open Schemes.Tables
open Ingest (WriteError Written)

abbrev TxnId := ℕ

def pollId (ballots : Ballots) : ℤ := ballots.poll.id

/-! ### What transactions write -/

inductive Write where
  | insertVote (vote : PollVote)
  | setCounts (id : ℤ) (counts : Counts) (versions updatedAt : ℤ)
  | deleteVotes (votes : List PollVote)
  | deletePolls (ids : List ℤ)

/-- What a statement makes of a poll and its votes. The votes of a deleted poll go with it. -/
def Write.onRow : Write → Ballots → Option Ballots
  | .insertVote vote, ballots => some (ballots.insert vote)
  | .setCounts id counts versions updatedAt, ballots =>
    if ballots.poll.id = id then
      some (ballots.setCounts counts (ballots.poll.lockVersion + versions) updatedAt)
    else some ballots
  | .deleteVotes votes, ballots => some (ballots.keep fun vote => decide (vote ∉ votes))
  | .deletePolls ids, ballots => if ballots.poll.id ∈ ids then none else some ballots

/-- What a row becomes by the statements of a transaction. -/
def written : List Write → Ballots → Option Ballots
  | [], ballots => some ballots
  | write :: writes, ballots => (write.onRow ballots).bind (written writes)

/-- What no statement changes of a poll. -/
theorem Write.onRow_poll {write : Write} {ballots ballots' : Ballots}
    (h : write.onRow ballots = some ballots') :
    ballots'.poll.id = ballots.poll.id ∧ ballots'.poll.accountId = ballots.poll.accountId := by
  cases write with
  | insertVote vote =>
    obtain rfl := Option.some.inj h
    simp
  | setCounts id counts versions updatedAt =>
    rw [Write.onRow] at h
    split at h <;> obtain rfl := Option.some.inj h <;> exact ⟨rfl, rfl⟩
  | deleteVotes votes =>
    obtain rfl := Option.some.inj h
    exact ⟨rfl, rfl⟩
  | deletePolls ids =>
    rw [Write.onRow] at h
    split at h
    · cases h
    · obtain rfl := Option.some.inj h
      exact ⟨rfl, rfl⟩

theorem written_poll : ∀ {writes : List Write} {ballots ballots' : Ballots},
    written writes ballots = some ballots' →
      ballots'.poll.id = ballots.poll.id ∧ ballots'.poll.accountId = ballots.poll.accountId
  | [], _, _, h => by
    obtain rfl := Option.some.inj h
    exact ⟨rfl, rfl⟩
  | write :: writes, ballots, ballots', h => by
    obtain ⟨between, hfirst, hrest⟩ := Option.bind_eq_some_iff.mp h
    obtain ⟨hid, howner⟩ := Write.onRow_poll hfirst
    obtain ⟨hid', howner'⟩ := written_poll hrest
    exact ⟨hid'.trans hid, howner'.trans howner⟩

theorem written_append (writes : List Write) (write : Write) (ballots : Ballots) :
    written (writes ++ [write]) ballots = (written writes ballots).bind write.onRow := by
  induction writes generalizing ballots with
  | nil =>
    rw [List.nil_append, written, written, Option.bind_some]
    cases write.onRow ballots <;> rfl
  | cons first writes ih =>
    rw [List.cons_append, written, written, Option.bind_assoc]
    exact congrArg _ (funext ih)

/-! ### Where transactions are -/

/-- `vote_poll`. -/
structure Ballot where
  accountId : ℤ
  pollId : ℤ
  choices : List ℤ

/-- `apply_remote_poll_vote`. -/
structure VoteActivity where
  accountId : ℤ
  voteUri : String
  option : String

/-- The rows of a ballot that is accepted. -/
structure Casting where
  accountId : ℤ
  uri : Option String
  poll : Poll
  firstBallot : Bool
  votes : ℕ
  remaining : List ℤ
  tallies : List ℤ

/-- What a transaction has done. A vote has locked the account, found the poll, been authorized,
    locked the poll, looked for its activity, and inserts the votes that it is allowed; a removal has
    locked the account, locks its polls, takes its votes from the counts poll by poll, and deletes
    them. -/
inductive Stage where
  | idle
  | ballot (ballot : Ballot)
  | ballotAuthorized (ballot : Ballot)
  | ballotPoll (ballot : Ballot) (poll : Poll)
  | activity (activity : VoteActivity)
  | activityQuestion (activity : VoteActivity) (pollId : ℤ)
  | activityAuthorized (activity : VoteActivity) (pollId : ℤ)
  | activityPoll (activity : VoteActivity) (poll : Poll) (choice : ℤ)
  | activityNew (activity : VoteActivity) (poll : Poll) (choice : ℤ)
  | casting (casting : Casting)
  | counted
  | removing (accountId : ℤ)
  | lockingOwn (accountId : ℤ) (candidates own : List ℤ)
  | discounting (accountId : ℤ) (own : List ℤ) (remaining : List (ℤ × List ℤ))
  | discountingPoll (accountId : ℤ) (own : List ℤ) (remaining : List (ℤ × List ℤ)) (poll : Poll)
      (choices : List ℤ)
  | votesDeleted (own : List ℤ)
  | removed

structure State where
  /-- The committed rows. -/
  ballots : Table pollId
  /-- The ids that polls have been given. -/
  pollIds : List ℤ
  nextVoteId : ℤ
  accountLock : ℤ → Option TxnId
  pollLock : ℤ → Option TxnId
  stages : TxnId → Stage
  writes : TxnId → List Write

def State.initial : State where
  ballots := ⟨[], List.nodup_nil⟩
  pollIds := []
  nextVoteId := 1
  accountLock _ := none
  pollLock _ := none
  stages _ := .idle
  writes _ := []

inductive Response where
  | continued
  | committed
  | consumed
  | notPollVote
  | rejected (error : WriteError)
  deriving DecidableEq

namespace State

variable (σ : State) (t : TxnId)

/-- The rows that a transaction sees. -/
def view : Table pollId :=
  σ.ballots.filterMap (written (σ.writes t)) fun _ _ h => (written_poll h).1

def setStage (stage : Stage) : State := { σ with stages := Function.update σ.stages t stage }

def write (write : Write) : State :=
  { σ with writes := Function.update σ.writes t (σ.writes t ++ [write]) }

/-- A lock that is free, or held already. -/
def Free (lock : Option TxnId) : Prop := lock = none ∨ lock = some t

instance (lock : Option TxnId) : Decidable (Free t lock) := inferInstanceAs (Decidable (_ ∨ _))

def holdAccount (accountId : ℤ) : State :=
  { σ with accountLock := Function.update σ.accountLock accountId (some t) }

def holdPoll (id : ℤ) : State := { σ with pollLock := Function.update σ.pollLock id (some t) }

/-- The end of a transaction. -/
def release : State :=
  { σ with
    accountLock := fun accountId =>
      if σ.accountLock accountId = some t then none else σ.accountLock accountId
    pollLock := fun id => if σ.pollLock id = some t then none else σ.pollLock id
    stages := Function.update σ.stages t .idle
    writes := Function.update σ.writes t [] }

def commit : State := { σ.release t with ballots := σ.view t }

def rollback : State := σ.release t

end State

/-! ### The statements of a vote -/

def expired (poll : Poll) (now : ℤ) : Bool := poll.expiresAt.any fun expiresAt => decide (expiresAt ≤ now)

/-- The loop over the choices of a ballot. -/
def checkChoices (accountId : ℤ) (poll : Poll) : List ℤ → List ℤ → Written Unit
  | _, [] => .ok ()
  | existing, choice :: choices =>
    if choice < 0 then .error (.validation "The chosen vote option does not exist")
    else if (poll.options.length : ℤ) ≤ choice then
      .error (.validation "The chosen vote option does not exist")
    else if accountId = poll.accountId then .error (.validation "You cannot vote in your own polls")
    else if (!poll.multiple && !existing.isEmpty) || (poll.multiple && existing.contains choice) then
      .error (.validation "You have already voted on this poll")
    else checkChoices accountId poll (existing ++ [choice]) choices

abbrev Stepped := Option (State × Response)

section Statements

variable (σ : State) (t : TxnId)

/-- `begin_account_write` locks the account. -/
def votePoll (ballot : Ballot) : Stepped :=
  match σ.stages t with
  | .idle =>
    if State.Free t (σ.accountLock ballot.accountId) then
      some ((σ.holdAccount t ballot.accountId).setStage t (.ballot ballot), .continued)
    else none
  | _ => none

/-- `remote_interaction_actor_matches` locks the account, if it is a remote one. -/
def applyRemotePollVote (isLocal : ℤ → Bool) (activity : VoteActivity) (actorMatches : Bool) : Stepped :=
  match σ.stages t with
  | .idle =>
    if isLocal activity.accountId || !actorMatches then some (σ.commit t, .consumed)
    else if State.Free t (σ.accountLock activity.accountId) then
      some ((σ.holdAccount t activity.accountId).setStage t (.activity activity), .continued)
    else none
  | _ => none

/-- The poll of the local status with the URI of the question, as it is found. -/
def findQuestion (found : Option ℤ) : Stepped :=
  match σ.stages t with
  | .activity activity =>
    match found with
    | some id => some (σ.setStage t (.activityQuestion activity id), .continued)
    | none => some (σ.commit t, .notPollVote)
  | _ => none

/-- `authorize_poll_vote`, after the status is locked, as far as it is not deleted. -/
def authorizePollVote (result : Written Unit) : Stepped :=
  match σ.stages t, result with
  | .ballot ballot, .ok () => some (σ.setStage t (.ballotAuthorized ballot), .continued)
  | .ballot _, .error error => some (σ.rollback t, .rejected error)
  | .activityQuestion activity id, .ok () =>
    some (σ.setStage t (.activityAuthorized activity id), .continued)
  | .activityQuestion _ _, .error .notFound => some (σ.commit t, .consumed)
  | .activityQuestion _ _, .error .forbidden => some (σ.commit t, .consumed)
  | .activityQuestion _ _, .error error => some (σ.rollback t, .rejected error)
  | _, _ => none

/-- `SELECT … FROM polls WHERE id = $1 FOR UPDATE`. -/
def lockPoll : Stepped :=
  match σ.stages t with
  | .ballotAuthorized ballot =>
    if State.Free t (σ.pollLock ballot.pollId) then
      match (σ.view t).get ballot.pollId with
      | none => some (σ.rollback t, .rejected .notFound)
      | some ballots =>
        if ballot.choices.isEmpty then some (σ.commit t, .committed)
        else some ((σ.holdPoll t ballot.pollId).setStage t (.ballotPoll ballot ballots.poll), .continued)
    else none
  | .activityAuthorized activity id =>
    if State.Free t (σ.pollLock id) then
      match (σ.view t).get id with
      | none => some (σ.commit t, .consumed)
      | some ballots =>
        match ballots.poll.options.findIdx? fun candidate => candidate == activity.option with
        | none => some (σ.commit t, .notPollVote)
        | some choice =>
          if (choice : ℤ) < 2 ^ 31 then
            some ((σ.holdPoll t id).setStage t (.activityPoll activity ballots.poll choice), .continued)
          else some (σ.rollback t, .rejected (.invalidInput "remote poll choice is invalid"))
    else none
  | _ => none

/-- `SELECT EXISTS (SELECT 1 FROM poll_votes … AND uri = $3)`. -/
def readUri : Stepped :=
  match σ.stages t with
  | .activityPoll activity poll choice =>
    if ((σ.view t).get poll.id).any fun ballots =>
        (ballots.votesOf activity.accountId).any fun vote => decide (vote.uri = some activity.voteUri)
    then some (σ.commit t, .consumed)
    else some (σ.setStage t (.activityNew activity poll choice), .continued)
  | _ => none

/-- `SELECT choice FROM poll_votes WHERE poll_id = $1 AND account_id = $2 ORDER BY id`. -/
def existingChoices (accountId : ℤ) (poll : Poll) : List ℤ :=
  match (σ.view t).get poll.id with
  | some ballots => ballots.choicesOf accountId
  | none => []

/-- The clock, the votes that the account has, and the checks on the ballot. -/
def readChoices (now : ℤ) : Stepped :=
  match σ.stages t with
  | .ballotPoll ballot poll =>
    if expired poll now then some (σ.rollback t, .rejected (.validation "The poll has already ended"))
    else
      let existing := existingChoices σ t ballot.accountId poll
      match checkChoices ballot.accountId poll existing ballot.choices with
      | .error error => some (σ.rollback t, .rejected error)
      | .ok () =>
        some (σ.setStage t (.casting
          { accountId := ballot.accountId
            uri := none
            poll := poll
            firstBallot := existing.isEmpty
            votes := ballot.choices.length
            remaining := ballot.choices
            tallies := resizeTallies poll.cachedTallies poll.options.length }), .continued)
  | .activityNew activity poll choice =>
    if expired poll now then some (σ.commit t, .consumed)
    else
      let existing := existingChoices σ t activity.accountId poll
      if (!poll.multiple && !existing.isEmpty) || existing.contains choice then
        some (σ.commit t, .consumed)
      else
        some (σ.setStage t (.casting
          { accountId := activity.accountId
            uri := some activity.voteUri
            poll := poll
            firstBallot := existing.isEmpty
            votes := 1
            remaining := [choice]
            tallies := resizeTallies poll.cachedTallies poll.options.length }), .continued)
  | _ => none

/-- `INSERT INTO poll_votes`. The sequence of the ids ends. -/
def insertVote : Stepped :=
  match σ.stages t with
  | .casting casting =>
    match casting.remaining with
    | [] => none
    | choice :: remaining =>
      if σ.nextVoteId < 2 ^ 63 then
        some
          ((({ σ with nextVoteId := σ.nextVoteId + 1 } : State).write t
            (.insertVote ⟨σ.nextVoteId, casting.accountId, casting.poll.id, choice, casting.uri⟩)).setStage
              t (.casting { casting with
                remaining := remaining
                tallies := countVote casting.tallies choice }), .continued)
      else some (σ.rollback t, .rejected .database)
  | _ => none

/-- `UPDATE polls SET …, lock_version = lock_version + 1`. -/
def updatePoll (now : ℤ) : Stepped :=
  match σ.stages t with
  | .casting casting =>
    if casting.remaining.isEmpty then
      some
        ((σ.write t (.setCounts casting.poll.id
          (casting.poll.counted casting.tallies casting.votes casting.firstBallot) 1 now)).setStage t
            .counted, .continued)
    else none
  | _ => none

/-! ### The statements of a removal -/

/-- The callers of `remove_poll_data_for_account_and_statuses` lock the account; a purge of a domain
    removes one account after the other. -/
def removePollData (accountId : ℤ) : Stepped :=
  match σ.stages t with
  | .idle | .removed =>
    if State.Free t (σ.accountLock accountId) then
      some ((σ.holdAccount t accountId).setStage t (.removing accountId), .continued)
    else none
  | _ => none

/-- `SELECT poll.id FROM polls poll WHERE …`, before the rows are locked. -/
def selectOwn (statusIds protectedStatusIds : List ℤ) : Stepped :=
  match σ.stages t with
  | .removing accountId =>
    let selected := (σ.view t).rows.filter fun ballots =>
      (decide (ballots.poll.accountId = accountId) || statusIds.contains ballots.poll.statusId) &&
        !protectedStatusIds.contains ballots.poll.statusId
    some (σ.setStage t (.lockingOwn accountId (selected.map pollId) []), .continued)
  | _ => none

/-- `FOR UPDATE` locks row after row, and skips those that are gone. -/
def lockOwn : Stepped :=
  match σ.stages t with
  | .lockingOwn accountId (id :: candidates) own =>
    if State.Free t (σ.pollLock id) then
      match (σ.view t).get id with
      | none => some (σ.setStage t (.lockingOwn accountId candidates own), .continued)
      | some _ =>
        some ((σ.holdPoll t id).setStage t (.lockingOwn accountId candidates (own ++ [id])), .continued)
    else none
  | _ => none

/-- `votes_by_poll`. -/
def votesByPoll (accountId : ℤ) : List (ℤ × List ℤ) :=
  (σ.view t).rows.filterMap fun ballots =>
    if (ballots.choicesOf accountId).isEmpty then none
    else some (ballots.poll.id, ballots.choicesOf accountId)

def readVotes : Stepped :=
  match σ.stages t with
  | .lockingOwn accountId [] own =>
    some (σ.setStage t (.discounting accountId own (votesByPoll σ t accountId)), .continued)
  | _ => none

/-- The polls without one that is done. -/
def except (remaining : List (ℤ × List ℤ)) (id : ℤ) : List (ℤ × List ℤ) :=
  remaining.filter fun entry => decide (entry.1 ≠ id)

/-- `SELECT cached_tallies, … FROM polls WHERE id = $1 FOR UPDATE`, for one of the polls. -/
def lockVoted (id : ℤ) : Stepped :=
  match σ.stages t with
  | .discounting accountId own remaining =>
    match remaining.find? fun entry => decide (entry.1 = id) with
    | none => none
    | some (_, choices) =>
      if State.Free t (σ.pollLock id) then
        match (σ.view t).get id with
        | none => some (σ.setStage t (.discounting accountId own (except remaining id)), .continued)
        | some ballots =>
          some ((σ.holdPoll t id).setStage t
            (.discountingPoll accountId own remaining ballots.poll choices), .continued)
      else none
  | _ => none

/-- `UPDATE polls SET …`. -/
def discountPoll (now : ℤ) : Stepped :=
  match σ.stages t with
  | .discountingPoll accountId own remaining poll choices =>
    some ((σ.write t (.setCounts poll.id (poll.discounted choices) 0 now)).setStage t
      (.discounting accountId own (except remaining poll.id)), .continued)
  | _ => none

/-- `DELETE FROM poll_votes WHERE account_id = $1`. -/
def deleteVotes : Stepped :=
  match σ.stages t with
  | .discounting accountId own [] =>
    some ((σ.write t (.deleteVotes
      ((σ.view t).rows.flatMap fun ballots => ballots.votesOf accountId))).setStage t
        (.votesDeleted own), .continued)
  | _ => none

/-- `DELETE FROM polls WHERE id = ANY($1)`. -/
def deletePolls : Stepped :=
  match σ.stages t with
  | .votesDeleted own => some ((σ.write t (.deletePolls own)).setStage t .removed, .continued)
  | _ => none

def commitTransaction : Stepped :=
  match σ.stages t with
  | .counted | .removed => some (σ.commit t, .committed)
  | _ => none

end Statements

/-! ### What else happens to polls -/

section Others

variable (isLocal : ℤ → Bool) (σ : State)

/-- A poll as it is created with its status. -/
structure NewPoll where
  id : ℤ
  accountId : ℤ
  statusId : ℤ
  options : List String
  multiple : Bool
  hideTotals : Bool
  expiresAt : Option ℤ
  createdAt : ℤ

def NewPoll.row (poll : NewPoll) : Poll where
  id := poll.id
  accountId := poll.accountId
  statusId := poll.statusId
  options := poll.options
  cachedTallies := poll.options.map fun _ => 0
  votesCount := 0
  votersCount := some 0
  multiple := poll.multiple
  hideTotals := poll.hideTotals
  expiresAt := poll.expiresAt
  lastFetchedAt := none
  lockVersion := 0
  updatedAt := poll.createdAt

/-- A poll that is committed with a new id. -/
def insertPoll (poll : Poll) : Stepped :=
  if poll.id ∈ σ.pollIds then none
  else (σ.ballots.insert (Ballots.empty poll)).map fun ballots =>
    ({ σ with ballots := ballots, pollIds := poll.id :: σ.pollIds }, .committed)

/-- The insertion of the poll of a status that is created. -/
def createPoll (poll : NewPoll) : Stepped := insertPoll σ poll.row

/-- `upsert_remote_poll` for the poll of a remote account: any row, and no votes that it had not. -/
def upsertRemotePoll (poll : Poll) (kept : List ℤ) : Stepped :=
  if isLocal poll.accountId then none
  else match σ.ballots.get poll.id with
    | none => insertPoll σ poll
    | some ballots =>
      if σ.pollLock poll.id = none ∧ ballots.poll.accountId = poll.accountId then
        some ({ σ with
          ballots := σ.ballots.modify poll.id
            (fun ballots => (ballots.modify (fun row => { poll with id := row.id }) fun _ => rfl).keep
              fun vote => kept.contains vote.id) fun _ => rfl }, .committed)
      else none

/-- The expiration, and all that leaves the counts and options alone. -/
def touchPoll (id : ℤ) (expiresAt : Option ℤ) (lockVersion updatedAt : ℤ) : Stepped :=
  if σ.pollLock id = none then
    some ({ σ with
      ballots := σ.ballots.modify id
        (fun ballots => ballots.modify (fun row =>
          { row with expiresAt := expiresAt, lockVersion := lockVersion, updatedAt := updatedAt })
            fun _ => rfl) fun _ => rfl }, .committed)
  else none

/-- A poll that goes with its status. -/
def deletePoll (id : ℤ) : Stepped :=
  if σ.pollLock id = none then some ({ σ with ballots := σ.ballots.erase id }, .committed) else none

end Others

/-! ### Steps -/

inductive Op where
  | createPoll (poll : NewPoll)
  | upsertRemotePoll (poll : Poll) (kept : List ℤ)
  | touchPoll (id : ℤ) (expiresAt : Option ℤ) (lockVersion updatedAt : ℤ)
  | deletePoll (id : ℤ)
  | votePoll (t : TxnId) (ballot : Ballot)
  | applyRemotePollVote (t : TxnId) (activity : VoteActivity) (actorMatches : Bool)
  | findQuestion (t : TxnId) (found : Option ℤ)
  | authorizePollVote (t : TxnId) (result : Written Unit)
  | lockPoll (t : TxnId)
  | readUri (t : TxnId)
  | readChoices (t : TxnId) (now : ℤ)
  | insertVote (t : TxnId)
  | updatePoll (t : TxnId) (now : ℤ)
  | removePollData (t : TxnId) (accountId : ℤ)
  | selectOwn (t : TxnId) (statusIds protectedStatusIds : List ℤ)
  | lockOwn (t : TxnId)
  | readVotes (t : TxnId)
  | lockVoted (t : TxnId) (id : ℤ)
  | discountPoll (t : TxnId) (now : ℤ)
  | deleteVotes (t : TxnId)
  | deletePolls (t : TxnId)
  | commit (t : TxnId)
  | rollback (t : TxnId) (error : WriteError)

/-- The step of the system, with what the transaction answers. `isLocal` is `accounts.domain IS
    NULL`. -/
def next (isLocal : ℤ → Bool) (σ : State) : Op → Stepped
  | .createPoll poll => createPoll σ poll
  | .upsertRemotePoll poll kept => upsertRemotePoll isLocal σ poll kept
  | .touchPoll id expiresAt lockVersion updatedAt => touchPoll σ id expiresAt lockVersion updatedAt
  | .deletePoll id => deletePoll σ id
  | .votePoll t ballot => votePoll σ t ballot
  | .applyRemotePollVote t activity actorMatches => applyRemotePollVote σ t isLocal activity actorMatches
  | .findQuestion t found => findQuestion σ t found
  | .authorizePollVote t result => authorizePollVote σ t result
  | .lockPoll t => lockPoll σ t
  | .readUri t => readUri σ t
  | .readChoices t now => readChoices σ t now
  | .insertVote t => insertVote σ t
  | .updatePoll t now => updatePoll σ t now
  | .removePollData t accountId => removePollData σ t accountId
  | .selectOwn t statusIds protectedStatusIds => selectOwn σ t statusIds protectedStatusIds
  | .lockOwn t => lockOwn σ t
  | .readVotes t => readVotes σ t
  | .lockVoted t id => lockVoted σ t id
  | .discountPoll t now => discountPoll σ t now
  | .deleteVotes t => deleteVotes σ t
  | .deletePolls t => deletePolls σ t
  | .commit t => commitTransaction σ t
  | .rollback t error => some (σ.rollback t, .rejected error)

def Step (isLocal : ℤ → Bool) (σ : State) (label : Op × Response) (σ' : State) : Prop :=
  next isLocal σ label.1 = some (σ', label.2)

end Rustodon.Polls.Votes
