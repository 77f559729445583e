import Rustodon.Relationships.Refinement

/-! @src mastodon/write_repository.rs, mastodon/write_repository/remote_ingest.rs |
    name:Relationship machine | scheme:labelled runs | family:relationships

    All operations on relationships, in any order, with accounts that are locked, silenced, suspended
    or moved in between. A block takes the follows of both directions but not the request of the one
    who blocks, which can still be accepted; and a follow of an account that is no longer locked is
    made next to the request that waits for it. -/

namespace Rustodon.Relationships
open Schemes.Checked Schemes.Tables
open Ingest (WriteError Written)

/-- What moderators, owners and servers change of an account. -/
structure Flags where
  locked : Bool
  suspendedAt : Option ℤ
  silencedAt : Option ℤ
  movedToAccountId : Option ℤ

def withFlags (flags : Flags) (account : Account) : Account :=
  { account with
    locked := flags.locked
    suspendedAt := flags.suspendedAt
    silencedAt := flags.silencedAt
    movedToAccountId := flags.movedToAccountId }

theorem withFlags_id (flags : Flags) (account : Account) : (withFlags flags account).id = account.id := rfl

inductive Operation where
  | setFollow (at_ : Surroundings) (session : Written ℤ) (targetId : ℤ) (following : Bool)
      (reblogs notify : Option Bool) (languages : Option (List String)) (origin : Option String)
  | authorizeFollowRequest (at_ : Surroundings) (session : Written ℤ) (sourceId : ℤ)
  | rejectFollowRequest (at_ : Surroundings) (session : Written ℤ) (sourceId : ℤ)
  | removeFollower (at_ : Surroundings) (session : Written ℤ) (followerId : ℤ)
  | setBlock (at_ : Surroundings) (session : Written ℤ) (targetId : ℤ) (blocking : Bool)
      (origin : Option String)
  | remoteFollow (at_ : Surroundings) (sourceId : ℤ) (followUri objectUri origin : String)
      (deliveryTargetId : Option ℤ)
  | remoteUndoFollow (at_ : Surroundings) (sourceId : ℤ) (followUri : String) (targetUri : Option String)
      (origin : String) (deliveryTargetId : Option ℤ)
  | remoteFollowDecision (at_ : Surroundings) (sourceId : ℤ) (followUri : String)
      (targetUri localActorUri : Option String) (accepted : Bool) (origin : String)
      (deliveryTargetId : Option ℤ)
  | remoteBlock (at_ : Surroundings) (sourceId : ℤ) (blockUri objectUri origin : String)
      (deliveryTargetId : Option ℤ)
  | remoteUndoBlock (at_ : Surroundings) (sourceId : ℤ) (blockUri : String) (targetUri : Option String)
      (origin : String) (deliveryTargetId : Option ℤ)
  | createNotification (at_ : Surroundings) (recipientId : ℤ) (activityType : ActivityType) (activityId : ℤ)
  | changeAccount (accountId : ℤ) (flags : Flags)

def Operation.written (state : State) : Operation → Written State
  | .setFollow at_ session targetId following reblogs notify languages origin =>
    (Relationships.setFollow at_ state session targetId following reblogs notify languages origin).map
      Prod.fst
  | .authorizeFollowRequest at_ session sourceId =>
    (Relationships.authorizeFollowRequest at_ state session sourceId).map Prod.fst
  | .rejectFollowRequest at_ session sourceId =>
    Relationships.rejectFollowRequest at_ state session sourceId
  | .removeFollower at_ session followerId => Relationships.removeFollower at_ state session followerId
  | .setBlock at_ session targetId blocking origin =>
    Relationships.setBlock at_ state session targetId blocking origin
  | .remoteFollow at_ sourceId followUri objectUri origin deliveryTargetId =>
    (applyRemoteFollow at_ state sourceId followUri objectUri origin deliveryTargetId).map Prod.fst
  | .remoteUndoFollow at_ sourceId followUri targetUri origin deliveryTargetId =>
    applyRemoteUndoFollow at_ state sourceId followUri targetUri origin deliveryTargetId
  | .remoteFollowDecision at_ sourceId followUri targetUri localActorUri accepted origin
      deliveryTargetId =>
    applyRemoteFollowDecision at_ state sourceId followUri targetUri localActorUri accepted origin
      deliveryTargetId
  | .remoteBlock at_ sourceId blockUri objectUri origin deliveryTargetId =>
    applyRemoteBlock at_ state sourceId blockUri objectUri origin deliveryTargetId
  | .remoteUndoBlock at_ sourceId blockUri targetUri origin deliveryTargetId =>
    applyRemoteUndoBlock at_ state sourceId blockUri targetUri origin deliveryTargetId
  | .createNotification at_ recipientId activityType activityId =>
    .ok (Relationships.createNotification at_ state recipientId activityType activityId)
  | .changeAccount accountId flags =>
    .ok { state with
      accounts := state.accounts.modify accountId (withFlags flags) (withFlags_id flags) }

/-- The state after an operation: one that fails is rolled back. -/
def Operation.after (state : State) (operation : Operation) : State :=
  match operation.written state with
  | .ok state' => state'
  | .error _ => state

/-- Not a new follow of somebody who has been asked and is no longer locked. -/
def Operation.Orderly (state : State) : Operation → Prop
  | .setFollow _ session targetId following .. =>
    following = true → OrderlyFollow state session targetId
  | _ => True

/-- All operations of a sequence are orderly where they come. -/
def OrderlyRun : State → List Operation → Prop
  | _, [] => True
  | state, operation :: operations =>
    operation.Orderly state ∧ OrderlyRun (operation.after state) operations

/-! ### Runs -/

theorem isRemote_changeAccount (state : State) (accountId : ℤ) (flags : Flags) (other : ℤ) :
    isRemote { state with
      accounts := state.accounts.modify accountId (withFlags flags) (withFlags_id flags) } other =
        isRemote state other := by
  rw [isRemote, Table.get_modify, isRemote, Option.any_map]
  congr 1
  funext account
  split <;> rfl

theorem changeAccount_refines {orderly : Prop} (state : State) (accountId : ℤ) (flags : Flags) :
    Refines orderly state { state with
      accounts := state.accounts.modify accountId (withFlags flags) (withFlags_id flags) } := by
  refine .same rfl fun hs notification hnotification => ?_
  obtain ⟨hrecipient, hrow⟩ := hs notification hnotification
  refine ⟨?_, ?_⟩
  · rwa [isRemote_changeAccount]
  · obtain ⟨follow, hfollow, hpoints⟩ := hrow
    exact ⟨follow, hfollow, hpoints⟩

/-- Every operation is one of the transitions of the relations. -/
theorem written_refines {state state' : State} {operation : Operation}
    (hwritten : operation.written state = .ok state') :
    Refines (operation.Orderly state) state state' := by
  cases operation with
  | setFollow at_ session targetId following reblogs notify languages origin =>
    obtain ⟨⟨_, outcome⟩, hoperation, rfl⟩ := map_eq_ok hwritten
    exact setFollow_refines hoperation
  | authorizeFollowRequest at_ session sourceId =>
    obtain ⟨⟨_, outcome⟩, hoperation, rfl⟩ := map_eq_ok hwritten
    exact authorizeFollowRequest_refines hoperation
  | rejectFollowRequest at_ session sourceId => exact rejectFollowRequest_refines hwritten
  | removeFollower at_ session followerId => exact removeFollower_refines hwritten
  | setBlock at_ session targetId blocking origin => exact setBlock_refines hwritten
  | remoteFollow at_ sourceId followUri objectUri origin deliveryTargetId =>
    obtain ⟨⟨_, outcome⟩, hoperation, rfl⟩ := map_eq_ok hwritten
    exact applyRemoteFollow_refines hoperation
  | remoteUndoFollow at_ sourceId followUri targetUri origin deliveryTargetId =>
    exact applyRemoteUndoFollow_refines hwritten
  | remoteFollowDecision at_ sourceId followUri targetUri localActorUri accepted origin
      deliveryTargetId =>
    exact applyRemoteFollowDecision_refines hwritten
  | remoteBlock at_ sourceId blockUri objectUri origin deliveryTargetId =>
    exact applyRemoteBlock_refines hwritten
  | remoteUndoBlock at_ sourceId blockUri targetUri origin deliveryTargetId =>
    exact applyRemoteUndoBlock_refines hwritten
  | createNotification at_ recipientId activityType activityId =>
    obtain rfl := Except.ok.inj hwritten
    exact createNotification_refines at_ recipientId activityType activityId
  | changeAccount accountId flags =>
    obtain rfl := Except.ok.inj hwritten
    exact changeAccount_refines state accountId flags

theorem after_refines (state : State) (operation : Operation) :
    Refines (operation.Orderly state) state (operation.after state) := by
  rw [Operation.after]
  cases hwritten : operation.written state with
  | error e => exact .refl state
  | ok state' => exact written_refines hwritten

/-- The state that a sequence of operations comes to. -/
def reached (state : State) (operations : List Operation) : State :=
  operations.foldl Operation.after state

theorem reached_guarded {state : State} (operations : List Operation)
    (h : (relations state).Guarded) : (relations (reached state operations)).Guarded := by
  induction operations generalizing state with
  | nil => exact h
  | cons operation operations ih => exact ih ((after_refines state operation).transition.guarded h)

theorem reached_sound {state : State} (operations : List Operation) (h : Sound state) :
    Sound (reached state operations) := by
  induction operations generalizing state with
  | nil => exact h
  | cons operation operations ih => exact ih ((after_refines state operation).sound h)

theorem reached_exclusive {state : State} (operations : List Operation)
    (h : (relations state).Exclusive) (horderly : OrderlyRun state operations) :
    (relations (reached state operations)).Exclusive := by
  induction operations generalizing state with
  | nil => exact h
  | cons operation operations ih =>
    obtain ⟨hfirst, hrest⟩ := horderly
    exact ih (((after_refines state operation).transition.mono fun _ => hfirst).exclusive h) hrest

def sampleAccount (id : ℤ) (username : String) (locked : Bool) : Account where
  id
  username
  domain := none
  uri := ""
  url := none
  idScheme := none
  protocol := 1
  inboxUrl := ""
  sharedInboxUrl := ""
  locked
  suspendedAt := none
  silencedAt := none
  movedToAccountId := none
  hasUser := true
  user_local _ := rfl

def sampleSurroundings (newId : ℤ) : Surroundings where
  now := 0
  newId
  lower := String.toLower
  sha256 text := text
  domainAllowed _ := true
  writeAllowed _ := .ok ()
  notificationAdmitted := true

/-- Two local accounts without relationships; the second is locked. -/
def sampleState : State where
  accounts := ⟨[sampleAccount 1 "a" false, sampleAccount 2 "b" true], by decide⟩
  domainBlocks := []
  follows := ⟨[], List.nodup_nil⟩
  followRequests := ⟨[], List.nodup_nil⟩
  blocks := ⟨[], List.nodup_nil⟩
  notifications := []
  relationshipTombstones := []
  tombstones := []

def sampleFollow : Operation :=
  .setFollow (sampleSurroundings 10) (.ok 1) 2 true none none none none

/-- The first account asks to follow the second, which is told of it; then the first blocks the second,
    which accepts the request all the same. -/
def sampleBlocked : List Operation :=
  [sampleFollow, .createNotification (sampleSurroundings 11) 2 .followRequest 10,
    .setBlock (sampleSurroundings 12) (.ok 1) 2 true none,
    .authorizeFollowRequest (sampleSurroundings 13) (.ok 2) 1]

/-- The second account is unlocked while a request waits, and the first asks again. -/
def sampleUnlocked : List Operation :=
  [sampleFollow, .changeAccount 2 ⟨false, none, none, none⟩, sampleFollow]

theorem sampleState_guarded : (relations sampleState).Guarded := fun _ h => nomatch h

theorem sampleState_sound : Sound sampleState := fun _ h => nomatch h

theorem sampleState_exclusive : (relations sampleState).Exclusive := fun _ h => nomatch h

end Rustodon.Relationships
