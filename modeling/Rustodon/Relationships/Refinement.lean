import Rustodon.Relationships.Operations
import Rustodon.Relationships.Relations

/-! @src mastodon/write_repository.rs, mastodon/write_repository/remote_ingest.rs |
    name:Relationship refinement | scheme:labelled runs, tables | family:relationships

    Every operation is one of the transitions of the relations, and keeps the notifications of follows
    and requests pointing to rows. -/

namespace Rustodon.Relationships
open Schemes.Checked Schemes.Tables
open Ingest (WriteError Written)

/-- Who follows, has asked and blocks. -/
def relations (state : State) : Relations ℤ where
  follows := state.follows.keys
  requests := state.followRequests.keys
  blocks := state.blocks.keys

theorem blocked_iff (state : State) (accountId targetId : ℤ) :
    (relations state).Blocked (accountId, targetId) ↔
      relationshipIsBlocked state accountId targetId = true := by
  rw [relationshipIsBlocked, Bool.or_eq_true]
  rfl

/-! ### Notifications -/

def rowsOf (state : State) : ActivityType → List Follow
  | .follow => state.follows.rows
  | .followRequest => state.followRequests.rows

/-- The notification is one of a local account, about a row with that target. -/
structure Notified (state : State) (notification : Notification) : Prop where
  recipient : isRemote state notification.accountId = false
  row : ∃ follow ∈ rowsOf state notification.activityType,
    follow.id = notification.activityId ∧ follow.targetAccountId = notification.accountId

def Sound (state : State) : Prop := ∀ notification ∈ state.notifications, Notified state notification

theorem Notified.of_rows {state state' : State} {notification : Notification}
    (h : Notified state notification) (haccounts : state'.accounts = state.accounts)
    (hrows : ∀ follow ∈ rowsOf state notification.activityType,
      follow.targetAccountId = notification.accountId → follow.id = notification.activityId →
        ∃ follow' ∈ rowsOf state' notification.activityType,
          follow'.id = follow.id ∧ follow'.targetAccountId = follow.targetAccountId) :
    Notified state' notification := by
  obtain ⟨hrecipient, follow, hfollow, hid, htarget⟩ := h
  obtain ⟨follow', hfollow', hid', htarget'⟩ := hrows follow hfollow htarget hid
  refine ⟨?_, follow', hfollow', hid'.trans hid, htarget'.trans htarget⟩
  rwa [isRemote, haccounts]

/-- The rows of a table are those of another, but for what their notifications do not read. -/
def SameRows (t t' : Table Follow.pair) : Prop :=
  ∀ follow ∈ t.rows, ∃ follow' ∈ t'.rows,
    follow'.id = follow.id ∧ follow'.targetAccountId = follow.targetAccountId

theorem SameRows.refl (t : Table Follow.pair) : SameRows t t :=
  fun follow h => ⟨follow, h, rfl, rfl⟩

theorem sameRows_insert {t t' : Table Follow.pair} {follow : Follow} (h : t.insert follow = some t') :
    SameRows t t' := by
  intro other hother
  refine ⟨other, ?_, rfl, rfl⟩
  rw [(Table.get_of_insert h).2]
  exact List.mem_append_left _ hother

theorem sameRows_modify {t : Table Follow.pair} {pair : ℤ × ℤ} {f : Follow → Follow}
    (hf : ∀ follow, (f follow).pair = follow.pair) (hid : ∀ follow, (f follow).id = follow.id) :
    SameRows t (t.modify pair f hf) := by
  intro follow hfollow
  refine ⟨if follow.pair = pair then f follow else follow, List.mem_map_of_mem hfollow, ?_⟩
  split
  · exact ⟨hid follow, congrArg Prod.snd (hf follow)⟩
  · exact ⟨rfl, rfl⟩

/-- What keeps the rows keeps the notifications of them. -/
theorem Sound.of_sameRows {state state' : State} (h : Sound state)
    (hnotifications : ∀ n ∈ state'.notifications, n ∈ state.notifications)
    (haccounts : state'.accounts = state.accounts) (hfollows : SameRows state.follows state'.follows)
    (hrequests : SameRows state.followRequests state'.followRequests) : Sound state' := by
  intro notification hnotification
  refine (h notification (hnotifications notification hnotification)).of_rows haccounts ?_
  intro follow hfollow _ _
  cases htype : notification.activityType with
  | follow =>
    rw [htype] at hfollow
    exact hfollows follow hfollow
  | followRequest =>
    rw [htype] at hfollow
    exact hrequests follow hfollow

theorem mem_deleteActivityNotifications {notifications : List Notification} {recipientId activityId : ℤ}
    {activityType : ActivityType} {notification : Notification} :
    notification ∈ deleteActivityNotifications notifications recipientId activityId activityType ↔
      notification ∈ notifications ∧ ¬ (notification.accountId = recipientId ∧
        notification.activityId = activityId ∧ notification.activityType = activityType) := by
  simp [deleteActivityNotifications, not_and, or_iff_not_imp_left]

/-! ### Statements -/

theorem relations_removeFollow (state : State) (pair : ℤ × ℤ) :
    relations (removeFollow state pair) =
      { relations state with follows := (relations state).follows \ {pair} } := by
  rw [removeFollow]
  split
  · rename_i hnone
    rw [relations, Set.sdiff_singleton_eq_self (Table.not_mem_keys.mpr hnone)]
  · rw [relations, Table.keys_erase]
    rfl

theorem relations_removeRequest (state : State) (pair : ℤ × ℤ) (recipientId : ℤ) :
    relations (removeRequest state pair recipientId) =
      { relations state with requests := (relations state).requests \ {pair} } := by
  rw [removeRequest]
  split
  · rename_i hnone
    rw [relations, Set.sdiff_singleton_eq_self (Table.not_mem_keys.mpr hnone)]
  · rw [relations, Table.keys_erase]
    rfl

theorem Sound.removeFollow {state : State} (h : Sound state) (pair : ℤ × ℤ) :
    Sound (removeFollow state pair) := by
  rw [Relationships.removeFollow]
  split
  · exact h
  · rename_i follow hfollow
    intro notification hnotification
    obtain ⟨hmem, hother⟩ := mem_deleteActivityNotifications.mp hnotification
    refine (h notification hmem).of_rows rfl ?_
    intro row hrow htarget hid
    cases htype : notification.activityType with
    | followRequest =>
      rw [htype] at hrow
      exact ⟨row, hrow, rfl, rfl⟩
    | follow =>
      rw [htype] at hrow
      refine ⟨row, Table.mem_erase.mpr ⟨hrow, ?_⟩, rfl, rfl⟩
      -- the row of the pair is the one whose notifications are deleted
      rintro rfl
      obtain rfl := Option.some.inj ((Table.mem_iff_get.mp hrow).symm.trans hfollow)
      exact hother ⟨htarget.symm, hid.symm, htype⟩

/-- The notifications of a request may be looked for with another recipient when the target is not a
    local account. -/
theorem Sound.removeRequest {state : State} (h : Sound state) (pair : ℤ × ℤ) {recipientId : ℤ}
    (hrecipient : recipientId = pair.2 ∨ isRemote state pair.2 = true) :
    Sound (removeRequest state pair recipientId) := by
  rw [Relationships.removeRequest]
  split
  · exact h
  · rename_i request hrequest
    intro notification hnotification
    obtain ⟨hmem, hother⟩ := mem_deleteActivityNotifications.mp hnotification
    have hnotified := h notification hmem
    refine hnotified.of_rows rfl ?_
    intro row hrow htarget hid
    cases htype : notification.activityType with
    | follow =>
      rw [htype] at hrow
      exact ⟨row, hrow, rfl, rfl⟩
    | followRequest =>
      rw [htype] at hrow
      refine ⟨row, Table.mem_erase.mpr ⟨hrow, ?_⟩, rfl, rfl⟩
      rintro rfl
      obtain rfl := Option.some.inj ((Table.mem_iff_get.mp hrow).symm.trans hrequest)
      rcases hrecipient with rfl | hremote
      · exact hother ⟨htarget.symm, hid.symm, htype⟩
      · have hlocal := hnotified.recipient
        rw [← htarget] at hlocal
        exact absurd (hlocal.symm.trans hremote) (by simp)

/-! ### Operations -/

/-- What an operation does: a transition, and notifications that still point to rows. -/
structure Refines (orderly : Prop) (state state' : State) : Prop where
  transition : Transition orderly (relations state) (relations state')
  sound : Sound state → Sound state'

variable {orderly : Prop} {state state' : State}

theorem Refines.refl (state : State) : Refines orderly state state := ⟨.keep, id⟩

theorem Refines.of_eq (h : state' = state) : Refines orderly state state' := by
  subst h
  exact .refl state'

/-- Changes of rows that relations and notifications do not read. -/
theorem Refines.same (hrelations : relations state' = relations state)
    (hsound : Sound state → Sound state') : Refines orderly state state' :=
  ⟨hrelations ▸ .keep, hsound⟩

theorem refines_modifyFollows (pair : ℤ × ℤ) {f : Follow → Follow}
    (hf : ∀ follow, (f follow).pair = follow.pair) (hid : ∀ follow, (f follow).id = follow.id) :
    Refines orderly state { state with follows := state.follows.modify pair f hf } := by
  refine .same ?_ fun h => h.of_sameRows (fun _ => id) rfl (sameRows_modify hf hid) (.refl _)
  rw [relations, Table.keys_modify]
  rfl

theorem refines_modifyRequests (pair : ℤ × ℤ) {f : Follow → Follow}
    (hf : ∀ follow, (f follow).pair = follow.pair) (hid : ∀ follow, (f follow).id = follow.id) :
    Refines orderly state { state with followRequests := state.followRequests.modify pair f hf } := by
  refine .same ?_ fun h => h.of_sameRows (fun _ => id) rfl (.refl _) (sameRows_modify hf hid)
  rw [relations, Table.keys_modify]
  rfl

theorem refines_insertFollow {follow : Follow} {follows : Table Follow.pair}
    (h : state.follows.insert follow = some follows) (hblocked : ¬ (relations state).Blocked follow.pair)
    (hrequest : orderly → state.followRequests.get follow.pair = none) :
    Refines orderly state { state with follows } := by
  refine ⟨?_, fun hs => hs.of_sameRows (fun _ => id) rfl (sameRows_insert h) (.refl _)⟩
  have hkeys : relations { state with follows } =
      { relations state with follows := insert follow.pair (relations state).follows } := by
    rw [relations, Table.keys_insert h]
    rfl
  rw [hkeys]
  exact .follow follow.pair hblocked fun ho => Table.not_mem_keys.mpr (hrequest ho)

theorem refines_insertRequest {request : Follow} {followRequests : Table Follow.pair}
    (h : state.followRequests.insert request = some followRequests)
    (hblocked : ¬ (relations state).Blocked request.pair)
    (hfollow : state.follows.get request.pair = none) :
    Refines orderly state { state with followRequests } := by
  refine ⟨?_, fun hs => hs.of_sameRows (fun _ => id) rfl (.refl _) (sameRows_insert h)⟩
  have hkeys : relations { state with followRequests } =
      { relations state with requests := insert request.pair (relations state).requests } := by
    rw [relations, Table.keys_insert h]
    rfl
  rw [hkeys]
  exact .ask request.pair hblocked (Table.not_mem_keys.mpr hfollow)

theorem refines_removeFollow (pair : ℤ × ℤ) : Refines orderly state (removeFollow state pair) := by
  refine ⟨?_, fun h => h.removeFollow pair⟩
  rw [relations_removeFollow]
  exact .unfollow pair

theorem refines_removeRequest (pair : ℤ × ℤ) {recipientId : ℤ}
    (hrecipient : recipientId = pair.2 ∨ isRemote state pair.2 = true) :
    Refines orderly state (removeRequest state pair recipientId) := by
  refine ⟨?_, fun h => h.removeRequest pair hrecipient⟩
  rw [relations_removeRequest]
  exact .withdraw pair

/-! ### Local accounts -/

theorem startFollow_refines {at_ : Surroundings} {accountId targetId : ℤ} {target : RelationshipTarget}
    {reblogs notify : Option Bool} {languages : Option (List String)} {origin : Option String}
    {delivery : Option RemoteRelationshipDelivery} {outcome : FollowWriteOutcome}
    (h : startFollow at_ state accountId targetId target reblogs notify languages origin delivery =
      .ok (state', outcome))
    (hblocked : relationshipIsBlocked state accountId targetId = false)
    (horderly : orderly → target.isLocal = true → target.locked = false →
      target.sourceSilenced = false → state.follows.get (accountId, targetId) = none →
        state.followRequests.get (accountId, targetId) = none) :
    Refines orderly state state' := by
  have hunblocked : ¬ (relations state).Blocked (accountId, targetId) := by
    rw [blocked_iff, hblocked]
    simp
  rw [startFollow] at h
  split at h
  · rename_i hrequest
    rw [Bool.and_eq_true, Option.isNone_iff_eq_none] at hrequest
    split at h
    · obtain ⟨rfl, -⟩ := Prod.mk.inj (Except.ok.inj h)
      exact refines_modifyRequests _ (withOptions_pair _ _ _) fun _ => rfl
    · obtain ⟨followRequests, hinsert, h⟩ := map_eq_ok h
      obtain ⟨rfl, -⟩ := Prod.mk.inj h
      exact refines_insertRequest (okOr_eq_ok hinsert) hunblocked hrequest.1
  · rename_i hrequest
    split at h
    · obtain ⟨rfl, -⟩ := Prod.mk.inj (Except.ok.inj h)
      exact refines_modifyFollows _ (withOptions_pair _ _ _) fun _ => rfl
    · rename_i hnew
      rw [Option.not_isSome_iff_eq_none] at hnew
      obtain ⟨follows, hinsert, h⟩ := map_eq_ok h
      obtain ⟨rfl, -⟩ := Prod.mk.inj h
      refine refines_insertFollow (okOr_eq_ok hinsert) hunblocked fun ho => ?_
      refine horderly ho ?_ ?_ ?_ hnew <;> simp_all

theorem stopFollow_refines (at_ : Surroundings) (accountId targetId : ℤ) (origin : Option String)
    (delivery : Option RemoteRelationshipDelivery) :
    Refines orderly state (stopFollow at_ state accountId targetId origin delivery).1 := by
  rw [stopFollow]
  split
  · exact refines_removeFollow _
  · split
    · exact refines_removeRequest _ (.inl rfl)
    · exact .refl state

/-- An account does not follow anew whom it has asked to follow and who is no longer locked. -/
def OrderlyFollow (state : State) (session : Written ℤ) (targetId : ℤ) : Prop :=
  ∀ accountId target, session = .ok accountId →
    relationshipTarget state accountId targetId = .ok target → target.isLocal = true →
      target.locked = false → target.sourceSilenced = false →
        state.follows.get (accountId, targetId) = none →
          state.followRequests.get (accountId, targetId) = none

theorem setFollow_refines {at_ : Surroundings} {session : Written ℤ} {targetId : ℤ} {following : Bool}
    {reblogs notify : Option Bool} {languages : Option (List String)} {origin : Option String}
    {outcome : FollowWriteOutcome}
    (h : setFollow at_ state session targetId following reblogs notify languages origin =
      .ok (state', outcome)) :
    Refines (following = true → OrderlyFollow state session targetId) state state' := by
  obtain ⟨accountId, hsession, h⟩ := bind_eq_ok h
  obtain ⟨-, -, h⟩ := bind_eq_ok h
  obtain ⟨-, -, h⟩ := bind_eq_ok h
  obtain ⟨target, htarget, h⟩ := bind_eq_ok h
  obtain ⟨-, -, h⟩ := bind_eq_ok h
  obtain ⟨_, hblocked, h⟩ := bind_eq_ok h
  obtain ⟨-, -, h⟩ := bind_eq_ok h
  cases following with
  | false =>
    obtain rfl : (stopFollow at_ state accountId targetId origin _).1 = state' :=
      congrArg Prod.fst (Except.ok.inj h)
    exact stopFollow_refines at_ accountId targetId origin _
  | true =>
    have hfree := failIf_eq_ok hblocked
    rw [Bool.true_and, Bool.or_eq_false_iff] at hfree
    exact startFollow_refines h hfree.1 fun ho => ho rfl accountId target hsession htarget

/-- A request that becomes a follow, or goes where there is one. -/
theorem refines_accept {pair : ℤ × ℤ} {follows : Table Follow.pair} {recipientId : ℤ}
    (hrequest : pair ∈ state.followRequests.keys)
    (hrows : SameRows state.follows follows) (hkeys : follows.keys = insert pair state.follows.keys)
    (hrecipient : recipientId = pair.2 ∨ isRemote state pair.2 = true) :
    Refines orderly state (removeRequest { state with follows } pair recipientId) := by
  refine ⟨?_, fun h => ?_⟩
  · rw [relations_removeRequest]
    have haccepted : ({ relations { state with follows } with
        requests := (relations { state with follows }).requests \ {pair} } : Relations ℤ) =
          { relations state with
            follows := insert pair (relations state).follows
            requests := (relations state).requests \ {pair} } := by
      rw [relations, hkeys]
      rfl
    rw [haccepted]
    exact .accept pair hrequest
  · have hfollows : Sound { state with follows } :=
      h.of_sameRows (fun _ => id) rfl hrows (.refl _)
    exact hfollows.removeRequest pair hrecipient

theorem acceptRequest_refines {at_ : Surroundings} {request : Follow} {uri : Option String}
    {existing : Option Follow} {f : Follow → Follow} {pair : ℤ × ℤ} {recipientId id : ℤ}
    (hf : ∀ follow, (f follow).pair = follow.pair) (hid : ∀ follow, (f follow).id = follow.id)
    (h : acceptRequest at_ state request uri existing (fun follows => follows.modify pair f hf)
      recipientId = .ok (state', id))
    (hrequest : state.followRequests.get pair = some request)
    (hexisting : ∀ follow, existing = some follow → state.follows.get pair = some follow)
    (hrecipient : recipientId = pair.2 ∨ isRemote state pair.2 = true) :
    Refines orderly state state' := by
  obtain rfl := Table.key_of_get hrequest
  have hmem := Table.mem_keys_of_get hrequest
  cases existing with
  | some follow =>
    obtain ⟨rfl, -⟩ := Prod.mk.inj (Except.ok.inj h)
    refine refines_accept hmem (sameRows_modify hf hid) ?_ hrecipient
    rw [Table.keys_modify, Set.insert_eq_of_mem (Table.mem_keys_of_get (hexisting follow rfl))]
  | none =>
    obtain ⟨follows, hinsert, h⟩ := map_eq_ok h
    obtain ⟨rfl, -⟩ := Prod.mk.inj h
    have hinsert := okOr_eq_ok hinsert
    have hkeys := Table.keys_insert hinsert
    exact refines_accept hmem (sameRows_insert hinsert) hkeys hrecipient

theorem authorizeFollowRequest_refines {at_ : Surroundings} {session : Written ℤ} {sourceId : ℤ}
    {outcome : FollowWriteOutcome}
    (h : authorizeFollowRequest at_ state session sourceId = .ok (state', outcome)) :
    Refines orderly state state' := by
  obtain ⟨targetId, -, h⟩ := bind_eq_ok h
  obtain ⟨-, -, h⟩ := bind_eq_ok h
  obtain ⟨-, -, h⟩ := bind_eq_ok h
  obtain ⟨request, hrequest, h⟩ := bind_eq_ok h
  obtain ⟨accepted, haccept, h⟩ := bind_eq_ok h
  obtain ⟨rfl, -⟩ := Prod.mk.inj (Except.ok.inj h)
  exact acceptRequest_refines (withOptions_pair _ _ _) (fun _ => rfl) haccept (okOr_eq_ok hrequest)
    (fun _ h => h) (.inl rfl)

theorem rejectFollowRequest_refines {at_ : Surroundings} {session : Written ℤ} {sourceId : ℤ}
    (h : rejectFollowRequest at_ state session sourceId = .ok state') : Refines orderly state state' := by
  obtain ⟨targetId, -, h⟩ := bind_eq_ok h
  obtain ⟨-, -, h⟩ := bind_eq_ok h
  obtain ⟨-, -, h⟩ := bind_eq_ok h
  obtain ⟨request, -, h⟩ := bind_eq_ok h
  obtain rfl := Except.ok.inj h
  exact refines_removeRequest _ (.inl rfl)

theorem removeFollower_refines {at_ : Surroundings} {session : Written ℤ} {followerId : ℤ}
    (h : removeFollower at_ state session followerId = .ok state') : Refines orderly state state' := by
  obtain ⟨targetId, -, h⟩ := bind_eq_ok h
  obtain ⟨-, -, h⟩ := bind_eq_ok h
  obtain ⟨-, -, h⟩ := bind_eq_ok h
  obtain ⟨follower, -, h⟩ := bind_eq_ok h
  obtain ⟨-, -, h⟩ := bind_eq_ok h
  obtain rfl := Except.ok.inj h
  exact refines_removeFollow _

/-! ### Blocks -/

theorem relations_removeFollowRelationships (state : State) (accountId targetId : ℤ) :
    relations (removeFollowRelationships state accountId targetId) = {
      follows := ((relations state).follows \ {(accountId, targetId)}) \ {(targetId, accountId)}
      requests := (relations state).requests \ {(targetId, accountId)}
      blocks := (relations state).blocks } := by
  rw [removeFollowRelationships, relations_removeRequest, relations_removeFollow,
    relations_removeFollow]

theorem Sound.removeFollowRelationships {state : State} (h : Sound state) (accountId targetId : ℤ) :
    Sound (removeFollowRelationships state accountId targetId) :=
  ((h.removeFollow _).removeFollow _).removeRequest _ (.inl rfl)

/-- A block that is there already stays, and a new one is added. -/
theorem keys_insertBlock (at_ : Surroundings) (blocks : Table Block.pair) (pair : ℤ × ℤ)
    (uri : Option String) : (insertBlock at_ blocks pair uri).keys = insert pair blocks.keys := by
  rw [insertBlock]
  cases hinsert : blocks.insert ⟨at_.newId, pair.1, pair.2, uri⟩ with
  | some blocks' => exact Table.keys_insert hinsert
  | none => exact (Set.insert_eq_of_mem (Table.mem_keys_of_insert_eq_none hinsert)).symm

theorem keys_localBlock (at_ : Surroundings) (blocks : Table Block.pair) (pair : ℤ × ℤ)
    (origin : Option String) (delivery : Option RemoteRelationshipDelivery) :
    (localBlock at_ blocks pair origin delivery).keys = insert pair blocks.keys := by
  have hinsert := keys_insertBlock at_ blocks pair none
  rcases origin with _ | origin
  · exact hinsert
  · rcases delivery with _ | delivery
    · exact hinsert
    · cases hget : (insertBlock at_ blocks pair none).get pair with
      | none =>
        simp only [localBlock, hget]
        exact hinsert
      | some block =>
        simp only [localBlock, hget, Table.keys_modify]
        exact hinsert

/-- A block with the follows and requests that it takes away. -/
theorem refines_block (accountId targetId : ℤ)
    (hrelations : relations state' = {
      follows := ((relations state).follows \ {(accountId, targetId)}) \ {(targetId, accountId)}
      requests := (relations state).requests \ {(targetId, accountId)}
      blocks := insert (accountId, targetId) (relations state).blocks })
    (hsound : Sound state → Sound state') : Refines orderly state state' :=
  ⟨hrelations ▸ .block (accountId, targetId), hsound⟩

theorem Sound.of_notifications {state state' : State} (h : Sound state)
    (hnotifications : ∀ n ∈ state'.notifications, n ∈ state.notifications)
    (haccounts : state'.accounts = state.accounts) (hfollows : state'.follows = state.follows)
    (hrequests : state'.followRequests = state.followRequests) : Sound state' :=
  h.of_sameRows hnotifications haccounts (hfollows ▸ .refl _) (hrequests ▸ .refl _)

theorem blockAccount_refines (at_ : Surroundings) (accountId targetId : ℤ) (origin : Option String)
    (delivery : Option RemoteRelationshipDelivery) :
    Refines orderly state (blockAccount at_ state accountId targetId origin delivery) := by
  refine refines_block accountId targetId ?_ fun hs => ?_
  · have hcleared : ∀ s : State, relations (clearAccountInteractions s accountId targetId) =
        relations s := fun _ => rfl
    rw [blockAccount, hcleared, relations_removeFollowRelationships]
    rw [relations, keys_localBlock]
    rfl
  · have hblocked : Sound { state with
        blocks := localBlock at_ state.blocks (accountId, targetId) origin delivery } :=
      hs.of_notifications (fun _ => id) rfl rfl rfl
    exact (hblocked.removeFollowRelationships accountId targetId).of_notifications
      (fun _ hn => (List.mem_filter.mp hn).1) rfl rfl rfl

theorem refines_unblock (pair : ℤ × ℤ) :
    Refines orderly state { state with blocks := state.blocks.erase pair } := by
  refine ⟨?_, fun hs => hs.of_notifications (fun _ => id) rfl rfl rfl⟩
  have hkeys : relations { state with blocks := state.blocks.erase pair } =
      { relations state with blocks := (relations state).blocks \ {pair} } := by
    rw [relations, Table.keys_erase]
    rfl
  rw [hkeys]
  exact .unblock pair

theorem setBlock_refines {at_ : Surroundings} {session : Written ℤ} {targetId : ℤ} {blocking : Bool}
    {origin : Option String} (h : setBlock at_ state session targetId blocking origin = .ok state') :
    Refines orderly state state' := by
  obtain ⟨accountId, -, h⟩ := bind_eq_ok h
  split at h
  · exact .of_eq (Except.ok.inj h).symm
  · obtain ⟨-, -, h⟩ := bind_eq_ok h
    obtain ⟨target, -, h⟩ := bind_eq_ok h
    obtain ⟨-, -, h⟩ := bind_eq_ok h
    cases blocking with
    | true =>
      obtain rfl := Except.ok.inj h
      exact blockAccount_refines at_ accountId targetId origin _
    | false =>
      obtain rfl := Except.ok.inj h
      exact refines_unblock _

/-! ### Remote servers -/

theorem Refines.tombstone (h : Refines orderly state state') (at_ : Surroundings) (key : String) :
    Refines orderly state (insertRelationshipTombstone at_ state' key) := by
  rw [insertRelationshipTombstone]
  split
  · exact h
  · exact ⟨h.transition, fun hs => (h.sound hs).of_notifications (fun _ => id) rfl rfl rfl⟩

theorem remoteFollow_refines {at_ : Surroundings} {source target : Account} {followUri : String}
    {outcome : Option RemoteFollowOutcome}
    (h : remoteFollow at_ state source target followUri = .ok (state', outcome)) :
    Refines orderly state state' := by
  rw [remoteFollow] at h
  split at h
  · exact .of_eq (Prod.mk.inj (Except.ok.inj h)).1.symm
  · split at h
    · obtain ⟨rfl, -⟩ := Prod.mk.inj (Except.ok.inj h)
      exact refines_modifyRequests _ (withUri_pair followUri) fun _ => rfl
    · rename_i hrequest
      split at h
      · exact .of_eq (Prod.mk.inj (Except.ok.inj h)).1.symm
      · rename_i hadmitted
        have hunblocked : ¬ (relations state).Blocked (source.id, target.id) := by
          rw [blocked_iff]
          simp_all
        split at h
        · obtain ⟨rfl, -⟩ := Prod.mk.inj (Except.ok.inj h)
          exact refines_modifyFollows _ (withUri_pair followUri) fun _ => rfl
        · rename_i hfollow
          split at h
          · obtain ⟨followRequests, hinsert, h⟩ := map_eq_ok h
            obtain ⟨rfl, -⟩ := Prod.mk.inj h
            exact refines_insertRequest (okOr_eq_ok hinsert) hunblocked hfollow
          · obtain ⟨follows, hinsert, h⟩ := map_eq_ok h
            obtain ⟨rfl, -⟩ := Prod.mk.inj h
            exact refines_insertFollow (okOr_eq_ok hinsert) hunblocked fun _ => hrequest

theorem applyRemoteFollow_refines {at_ : Surroundings} {sourceId : ℤ} {followUri objectUri : String}
    {origin : String} {deliveryTargetId : Option ℤ} {outcome : Option RemoteFollowOutcome}
    (h : applyRemoteFollow at_ state sourceId followUri objectUri origin deliveryTargetId =
      .ok (state', outcome)) : Refines orderly state state' := by
  obtain ⟨-, -, h⟩ := bind_eq_ok h
  split at h
  · exact .of_eq (Prod.mk.inj (Except.ok.inj h)).1.symm
  · split at h
    · exact .of_eq (Prod.mk.inj (Except.ok.inj h)).1.symm
    · split at h
      · exact .of_eq (Prod.mk.inj (Except.ok.inj h)).1.symm
      · split at h
        · exact .of_eq (Prod.mk.inj (Except.ok.inj h)).1.symm
        · split at h
          · split at h
            · exact .of_eq (Prod.mk.inj (Except.ok.inj h)).1.symm
            · exact remoteFollow_refines h
          · exact .of_eq (Prod.mk.inj (Except.ok.inj h)).1.symm

theorem refines_removeByUri (pair : ℤ × ℤ) (uri : String) :
    Refines orderly state (removeByUri state pair uri) := by
  rw [removeByUri]
  split
  · exact refines_removeFollow pair
  · split
    · exact refines_removeRequest pair (.inl rfl)
    · exact .refl state

theorem applyRemoteUndoFollow_refines {at_ : Surroundings} {sourceId : ℤ} {followUri : String}
    {targetUri : Option String} {origin : String} {deliveryTargetId : Option ℤ}
    (h : applyRemoteUndoFollow at_ state sourceId followUri targetUri origin deliveryTargetId =
      .ok state') : Refines orderly state state' := by
  obtain ⟨-, -, h⟩ := bind_eq_ok h
  split at h
  · exact .of_eq (Except.ok.inj h).symm
  · split at h
    · exact .of_eq (Except.ok.inj h).symm
    · split at h
      · exact .of_eq (Except.ok.inj h).symm
      · obtain rfl := Except.ok.inj h
        refine Refines.tombstone ?_ at_ _
        split
        · exact refines_removeByUri _ followUri
        · exact .refl state

theorem remoteBlock_refines (at_ : Surroundings) (sourceId targetId : ℤ) (blockUri : String) :
    Refines orderly state (remoteBlock at_ state sourceId targetId blockUri) := by
  refine refines_block sourceId targetId ?_ fun hs => ?_
  · have hrelations := relations_removeFollowRelationships state sourceId targetId
    rw [relations, Relations.mk.injEq] at hrelations
    rw [remoteBlock, relations, Table.keys_modify, keys_insertBlock, hrelations.1, hrelations.2.1]
    rfl
  · exact (hs.removeFollowRelationships sourceId targetId).of_notifications (fun _ => id) rfl rfl rfl

theorem applyRemoteBlock_refines {at_ : Surroundings} {sourceId : ℤ} {blockUri objectUri : String}
    {origin : String} {deliveryTargetId : Option ℤ}
    (h : applyRemoteBlock at_ state sourceId blockUri objectUri origin deliveryTargetId = .ok state') :
    Refines orderly state state' := by
  obtain ⟨-, -, h⟩ := bind_eq_ok h
  split at h
  · exact .of_eq (Except.ok.inj h).symm
  · split at h
    · exact .of_eq (Except.ok.inj h).symm
    · split at h
      · exact .of_eq (Except.ok.inj h).symm
      · obtain rfl := Except.ok.inj h
        exact remoteBlock_refines at_ sourceId _ blockUri

theorem applyRemoteUndoBlock_refines {at_ : Surroundings} {sourceId : ℤ} {blockUri : String}
    {targetUri : Option String} {origin : String} {deliveryTargetId : Option ℤ}
    (h : applyRemoteUndoBlock at_ state sourceId blockUri targetUri origin deliveryTargetId =
      .ok state') : Refines orderly state state' := by
  obtain ⟨-, -, h⟩ := bind_eq_ok h
  split at h
  · exact .of_eq (Except.ok.inj h).symm
  · split at h
    · exact .of_eq (Except.ok.inj h).symm
    · split at h
      · exact .of_eq (Except.ok.inj h).symm
      · obtain rfl := Except.ok.inj h
        refine Refines.tombstone ?_ at_ _
        split
        · rw [removeBlockByUri]
          split
          · exact refines_unblock _
          · exact .refl state
        · exact .refl state

/-- The follow and the request that a server rejects. -/
theorem refines_decline {pair : ℤ × ℤ} {recipientId : ℤ} (request follow : Bool)
    (hrecipient : recipientId = pair.2 ∨ isRemote state pair.2 = true) :
    Refines orderly state
      (if follow then removeFollow (if request then removeRequest state pair recipientId else state) pair
        else if request then removeRequest state pair recipientId else state) := by
  cases follow with
  | false =>
    cases request with
    | false => exact .refl state
    | true => exact refines_removeRequest pair hrecipient
  | true =>
    cases request with
    | false => exact refines_removeFollow pair
    | true =>
      refine ⟨?_, fun hs => (hs.removeRequest pair hrecipient).removeFollow pair⟩
      rw [if_pos rfl, if_pos rfl, relations_removeFollow, relations_removeRequest]
      exact .decline pair

theorem decideFollow_refines {at_ : Surroundings} {localId sourceId : ℤ} {followUri : String}
    {accepted : Bool} (h : decideFollow at_ state localId sourceId followUri accepted = .ok state')
    (hremote : isRemote state sourceId = true) : Refines orderly state state' := by
  cases accepted with
  | false =>
    obtain rfl := Except.ok.inj h
    exact refines_decline _ _ (.inr hremote)
  | true =>
    rw [decideFollow, if_pos rfl] at h
    split at h
    · rename_i request hrequest
      obtain ⟨⟨accepted, id⟩, haccept, rfl⟩ := map_eq_ok h
      refine acceptRequest_refines (withUri_pair followUri) (fun _ => rfl) haccept
        (Option.filter_eq_some_iff.mp hrequest).1 (fun follow hfollow => ?_) (.inr hremote)
      exact (Option.filter_eq_some_iff.mp hfollow).1
    · split at h
      · obtain rfl := Except.ok.inj h
        exact refines_modifyFollows _ (withUri_pair followUri) fun _ => rfl
      · exact .of_eq (Except.ok.inj h).symm

theorem applyRemoteFollowDecision_refines {at_ : Surroundings} {sourceId : ℤ} {followUri : String}
    {targetUri localActorUri : Option String} {accepted : Bool} {origin : String}
    {deliveryTargetId : Option ℤ}
    (h : applyRemoteFollowDecision at_ state sourceId followUri targetUri localActorUri accepted origin
      deliveryTargetId = .ok state') : Refines orderly state state' := by
  obtain ⟨-, -, h⟩ := bind_eq_ok h
  split at h
  · exact .of_eq (Except.ok.inj h).symm
  · rename_i source hsource
    obtain ⟨hsource, hdomain⟩ := Option.filter_eq_some_iff.mp hsource
    have hremote : isRemote state sourceId = true := by
      rw [isRemote, hsource]
      exact hdomain
    split at h
    · exact .of_eq (Except.ok.inj h).symm
    · split at h
      · exact .of_eq (Except.ok.inj h).symm
      · split at h
        · exact .of_eq (Except.ok.inj h).symm
        · exact decideFollow_refines h hremote

/-! ### Notifications and accounts -/

theorem isRemote_of_hasUser {accountId : ℤ} {account : Account}
    (h : state.accounts.get accountId = some account) (huser : account.hasUser = true) :
    isRemote state accountId = false := by
  rw [isRemote, h]
  simp [account.user_local huser]

theorem createNotification_refines (at_ : Surroundings) (recipientId : ℤ) (activityType : ActivityType)
    (activityId : ℤ) :
    Refines orderly state (createNotification at_ state recipientId activityType activityId) := by
  rw [createNotification]
  split
  · exact .refl state
  · rename_i follow hfollow
    split
    · rename_i hmade
      refine .same rfl fun hs => ?_
      intro notification hnotification
      rcases List.mem_append.mp hnotification with hold | hnew
      · exact (hs notification hold).of_rows rfl fun row hrow _ _ => ⟨row, hrow, rfl, rfl⟩
      · obtain rfl := List.mem_singleton.mp hnew
        simp only [notificationMade, Bool.and_eq_true, decide_eq_true_eq, Option.any_eq_true] at hmade
        obtain ⟨⟨⟨⟨⟨-, htarget⟩, -⟩, recipient, hrecipient, huser, -⟩, -⟩, -⟩ := hmade
        refine ⟨isRemote_of_hasUser hrecipient huser, follow, ?_, ?_, htarget⟩
        · cases activityType with
          | follow => exact List.mem_of_find?_eq_some hfollow
          | followRequest => exact List.mem_of_find?_eq_some hfollow
        · simpa using List.find?_some hfollow
    · exact .refl state

end Rustodon.Relationships
