import Rustodon.Polls.Votes

/-! @src mastodon/write_repository.rs | name:What votes leave alone | scheme:frames | family:polls

    A transaction writes to polls whose rows it has locked, and to votes of accounts that it has
    locked. What the others see of its steps is therefore small. -/

namespace Rustodon.Polls.Votes
open Schemes.Tables

variable {σ σ' σ'' : State} {t : TxnId} {p : ℤ} {write : Write} {writes : List Write}
  {ballots ballots' : Ballots} {accountId : ℤ}

/-! ### What a statement leaves alone -/

/-- The poll is one that the statement writes to. -/
def Write.touches : Write → ℤ → Prop
  | .insertVote vote, id => vote.pollId = id
  | .setCounts pollId _ _ _, id => pollId = id
  | .deleteVotes votes, id => ∃ vote ∈ votes, vote.pollId = id
  | .deletePolls ids, id => id ∈ ids

/-- The account is one whose votes the statement inserts or deletes. -/
def Write.concerns : Write → ℤ → Prop
  | .insertVote vote, accountId => vote.accountId = accountId
  | .setCounts _ _ _ _, _ => False
  | .deleteVotes votes, accountId => ∃ vote ∈ votes, vote.accountId = accountId
  | .deletePolls _, _ => False

theorem Write.onRow_of_not_touches (h : ¬write.touches ballots.poll.id) :
    write.onRow ballots = some ballots := by
  cases write with
  | insertVote vote =>
    have hpoll : ¬vote.pollId = ballots.poll.id := h
    rw [Write.onRow, Ballots.insert, dif_neg hpoll]
  | setCounts id counts versions updatedAt =>
    rw [Write.onRow, if_neg (Ne.symm h)]
  | deleteVotes votes =>
    refine congrArg some (Ballots.ext_of rfl (List.filter_eq_self.mpr fun vote hvote => ?_))
    refine decide_eq_true fun hmem => h ⟨vote, hmem, ballots.votes_of_poll vote hvote⟩
  | deletePolls ids =>
    have hpoll : ballots.poll.id ∉ ids := h
    rw [Write.onRow, if_neg hpoll]

theorem written_of_not_touches (h : ∀ write ∈ writes, ¬write.touches ballots.poll.id) :
    written writes ballots = some ballots := by
  induction writes with
  | nil => rfl
  | cons write writes ih =>
    rw [written, Write.onRow_of_not_touches (h write List.mem_cons_self), Option.bind_some]
    exact ih fun other hother => h other (List.mem_cons_of_mem _ hother)

theorem Write.votesOf_of_not_concerns (h : ¬write.concerns accountId)
    (hrow : write.onRow ballots = some ballots') :
    ballots'.votesOf accountId = ballots.votesOf accountId := by
  cases write with
  | insertVote vote =>
    have haccount : ¬vote.accountId = accountId := h
    obtain rfl := Option.some.inj hrow
    by_cases hpoll : vote.pollId = ballots.poll.id
    · rw [Ballots.votesOf, Ballots.votes_insert hpoll, List.filter_append]
      simp [Ballots.votesOf, haccount]
    · rw [Ballots.insert, dif_neg hpoll]
  | setCounts id counts versions updatedAt =>
    rw [Write.onRow] at hrow
    split at hrow <;> obtain rfl := Option.some.inj hrow <;> rfl
  | deleteVotes votes =>
    obtain rfl := Option.some.inj hrow
    rw [Ballots.votesOf, Ballots.votes_keep, List.filter_filter, Ballots.votesOf]
    refine List.filter_congr fun vote _ => ?_
    by_cases haccount : vote.accountId = accountId
    · have hkept : vote ∉ votes := fun hmem => h ⟨vote, hmem, haccount⟩
      simp [haccount, hkept]
    · simp [haccount]
  | deletePolls ids =>
    rw [Write.onRow] at hrow
    split at hrow
    · cases hrow
    · obtain rfl := Option.some.inj hrow
      rfl

theorem votesOf_of_not_concerns (h : ∀ write ∈ writes, ¬write.concerns accountId)
    (hrow : written writes ballots = some ballots') :
    ballots'.votesOf accountId = ballots.votesOf accountId := by
  induction writes generalizing ballots with
  | nil =>
    obtain rfl := Option.some.inj hrow
    rfl
  | cons write writes ih =>
    obtain ⟨between, hfirst, hrest⟩ := Option.bind_eq_some_iff.mp hrow
    rw [ih (fun other hother => h other (List.mem_cons_of_mem _ hother)) hrest]
    exact Write.votesOf_of_not_concerns (h write List.mem_cons_self) hfirst

/-! ### What a transaction sees -/

theorem get_view (σ : State) (t : TxnId) (p : ℤ) :
    (σ.view t).get p = (σ.ballots.get p).bind (written (σ.writes t)) :=
  Table.get_filterMap _

theorem view_of_nothing (h : σ.writes t = []) : (σ.view t).get p = σ.ballots.get p := by
  rw [get_view, h]
  exact Option.bind_fun_some _

theorem view_of_not_touches (h : ∀ write ∈ σ.writes t, ¬write.touches p) :
    (σ.view t).get p = σ.ballots.get p := by
  rw [get_view]
  cases hget : σ.ballots.get p with
  | none => rfl
  | some ballots =>
    have hkey : pollId ballots = p := Table.key_of_get hget
    rw [Option.bind_some]
    exact written_of_not_touches fun write hwrite => by
      rw [show ballots.poll.id = p from hkey]
      exact h write hwrite

theorem get_view_write (σ : State) (t : TxnId) (write : Write) (p : ℤ) :
    ((σ.write t write).view t).get p = ((σ.view t).get p).bind write.onRow := by
  rw [get_view, get_view]
  have hwrites : (σ.write t write).writes t = σ.writes t ++ [write] := Function.update_self ..
  rw [hwrites, Option.bind_assoc]
  exact congrArg _ (funext (written_append _ _))

/-- What a transaction sees depends on what is committed and on its own writes. -/
theorem view_congr (hballots : σ'.ballots.get p = σ.ballots.get p)
    (hwrites : σ'.writes t = σ.writes t) : (σ'.view t).get p = (σ.view t).get p := by
  rw [get_view, get_view, hballots, hwrites]

@[simp] theorem view_setStage (stage : Stage) : (σ.setStage t stage).view t = σ.view t := rfl

@[simp] theorem view_holdPoll (id : ℤ) : (σ.holdPoll t id).view t = σ.view t := rfl

@[simp] theorem view_holdAccount (id : ℤ) : (σ.holdAccount t id).view t = σ.view t := rfl

@[simp] theorem writes_setStage (stage : Stage) : (σ.setStage t stage).writes = σ.writes := rfl

@[simp] theorem writes_holdPoll (id : ℤ) : (σ.holdPoll t id).writes = σ.writes := rfl

@[simp] theorem writes_holdAccount (id : ℤ) : (σ.holdAccount t id).writes = σ.writes := rfl

@[simp] theorem ballots_setStage (stage : Stage) : (σ.setStage t stage).ballots = σ.ballots := rfl

@[simp] theorem ballots_holdPoll (id : ℤ) : (σ.holdPoll t id).ballots = σ.ballots := rfl

@[simp] theorem ballots_holdAccount (id : ℤ) : (σ.holdAccount t id).ballots = σ.ballots := rfl

@[simp] theorem ballots_write : (σ.write t write).ballots = σ.ballots := rfl

@[simp] theorem stages_setStage (stage : Stage) : (σ.setStage t stage).stages t = stage :=
  Function.update_self ..

@[simp] theorem pollLock_setStage (stage : Stage) : (σ.setStage t stage).pollLock = σ.pollLock := rfl

@[simp] theorem accountLock_setStage (stage : Stage) :
    (σ.setStage t stage).accountLock = σ.accountLock := rfl

@[simp] theorem pollLock_holdPoll (id : ℤ) : (σ.holdPoll t id).pollLock id = some t :=
  Function.update_self ..

@[simp] theorem accountLock_holdPoll (id : ℤ) : (σ.holdPoll t id).accountLock = σ.accountLock := rfl

@[simp] theorem accountLock_holdAccount (id : ℤ) : (σ.holdAccount t id).accountLock id = some t :=
  Function.update_self ..

@[simp] theorem pollLock_holdAccount (id : ℤ) : (σ.holdAccount t id).pollLock = σ.pollLock := rfl

theorem pollLock_of_holdPoll {id : ℤ} (h : σ.pollLock p = some t) :
    (σ.holdPoll t id).pollLock p = some t := by
  rw [State.holdPoll]
  by_cases hid : p = id
  · subst hid
    exact Function.update_self ..
  · exact (Function.update_of_ne hid _ _).trans h

theorem accountLock_of_holdAccount {id : ℤ} (h : σ.accountLock accountId = some t) :
    (σ.holdAccount t id).accountLock accountId = some t := by
  rw [State.holdAccount]
  by_cases hid : accountId = id
  · subst hid
    exact Function.update_self ..
  · exact (Function.update_of_ne hid _ _).trans h

/-! ### What the others see -/

/-- A step of a transaction that commits nothing: it changes what is its own. -/
structure Own (σ : State) (t : TxnId) (σ' : State) : Prop where
  ballots : σ'.ballots = σ.ballots
  pollIds : σ'.pollIds = σ.pollIds
  nextVoteId : σ.nextVoteId ≤ σ'.nextVoteId
  stages : ∀ other, other ≠ t → σ'.stages other = σ.stages other
  writes : ∀ other, other ≠ t → σ'.writes other = σ.writes other
  accountLock : ∀ other, other ≠ t → ∀ accountId,
    σ'.accountLock accountId = some other ↔ σ.accountLock accountId = some other
  pollLock : ∀ other, other ≠ t → ∀ id,
    σ'.pollLock id = some other ↔ σ.pollLock id = some other
  held : ∀ id, σ'.pollLock id = some t → σ.pollLock id = some t ∨ id ∈ σ.pollIds

theorem Own.refl : Own σ t σ where
  ballots := rfl
  pollIds := rfl
  nextVoteId := le_rfl
  stages _ _ := rfl
  writes _ _ := rfl
  accountLock _ _ _ := Iff.rfl
  pollLock _ _ _ := Iff.rfl
  held _ := .inl

theorem Own.trans (h : Own σ t σ') (h' : Own σ' t σ'') : Own σ t σ'' where
  ballots := h'.ballots.trans h.ballots
  pollIds := h'.pollIds.trans h.pollIds
  nextVoteId := h.nextVoteId.trans h'.nextVoteId
  stages other hne := (h'.stages other hne).trans (h.stages other hne)
  writes other hne := (h'.writes other hne).trans (h.writes other hne)
  accountLock other hne accountId := (h'.accountLock other hne accountId).trans
    (h.accountLock other hne accountId)
  pollLock other hne id := (h'.pollLock other hne id).trans (h.pollLock other hne id)
  held id hlock := (h'.held id hlock).elim (h.held id) fun hid => .inr (h.pollIds ▸ hid)

theorem own_setStage (stage : Stage) : Own σ t (σ.setStage t stage) :=
  { Own.refl with stages := fun _ hne => Function.update_of_ne hne _ _ }

theorem own_write : Own σ t (σ.write t write) :=
  { Own.refl with writes := fun _ hne => Function.update_of_ne hne _ _ }

theorem own_nextVoteId : Own σ t { σ with nextVoteId := σ.nextVoteId + 1 } :=
  { Own.refl with nextVoteId := Int.le.intro 1 rfl }

/-- A lock that is free is taken from nobody else. -/
theorem lock_of_free {lock : ℤ → Option TxnId} {id id' : ℤ} {other : TxnId}
    (hfree : State.Free t (lock id)) (hne : other ≠ t) :
    Function.update lock id (some t) id' = some other ↔ lock id' = some other := by
  by_cases hid : id' = id
  · subst hid
    rw [Function.update_self]
    constructor
    · intro h
      exact absurd (Option.some.inj h).symm hne
    · intro h
      rcases hfree with hfree | hfree
      · rw [hfree] at h
        cases h
      · rw [hfree] at h
        exact h
  · rw [Function.update_of_ne hid]

theorem own_holdAccount (h : State.Free t (σ.accountLock accountId)) :
    Own σ t (σ.holdAccount t accountId) :=
  { Own.refl with accountLock := fun _ hne _ => lock_of_free h hne }

theorem own_holdPoll (h : State.Free t (σ.pollLock p)) (hknown : p ∈ σ.pollIds) :
    Own σ t (σ.holdPoll t p) :=
  { Own.refl with
    pollLock := fun _ hne _ => lock_of_free h hne
    held := fun id hlock => by
      by_cases hid : id = p
      · exact .inr (hid ▸ hknown)
      · exact .inl ((Function.update_of_ne hid _ _).symm.trans hlock) }

/-- A lock that is released is nobody else's. -/
theorem lock_of_release {lock : Option TxnId} {other : TxnId} (hne : other ≠ t) :
    (if lock = some t then none else lock) = some other ↔ lock = some other := by
  split
  · rename_i hlock
    constructor
    · intro h
      cases h
    · intro h
      exact absurd (Option.some.inj (h.symm.trans hlock)) hne
  · exact Iff.rfl

theorem own_release : Own σ t (σ.release t) where
  ballots := rfl
  pollIds := rfl
  nextVoteId := le_rfl
  stages _ hne := Function.update_of_ne hne _ _
  writes _ hne := Function.update_of_ne hne _ _
  accountLock _ hne _ := lock_of_release hne
  pollLock _ hne _ := lock_of_release hne
  held id hlock := by
    have hlock : (if σ.pollLock id = some t then none else σ.pollLock id) = some t := hlock
    split at hlock
    · cases hlock
    · exact .inl hlock

variable (isLocal : ℤ → Bool)

/-- What the steps of the others do to what a transaction relies on: rows of polls that it has locked
    stay, and so do the votes of accounts that it has locked, unless their poll goes. -/
structure Others (σ : State) (t : TxnId) (σ' : State) : Prop where
  writes : σ'.writes t = σ.writes t
  nextVoteId : σ.nextVoteId ≤ σ'.nextVoteId
  pollIds : ∀ id ∈ σ.pollIds, id ∈ σ'.pollIds
  accountLock : ∀ accountId, σ'.accountLock accountId = some t ↔ σ.accountLock accountId = some t
  pollLock : ∀ id, σ'.pollLock id = some t ↔ σ.pollLock id = some t
  locked : ∀ id, σ.pollLock id = some t → σ'.ballots.get id = σ.ballots.get id
  votes : ∀ id after, σ'.ballots.get id = some after → id ∈ σ.pollIds →
    ∃ before, σ.ballots.get id = some before ∧ after.poll.accountId = before.poll.accountId ∧
      ∀ accountId, σ.accountLock accountId = some t →
        (after.votesOf accountId).Sublist (before.votesOf accountId) ∧
          (isLocal before.poll.accountId = true →
            after.votesOf accountId = before.votesOf accountId)
  created : ∀ id after, σ'.ballots.get id = some after → id ∉ σ.pollIds → after.votes = []

variable {isLocal}

theorem others_setStage (hknown : ∀ id ballots, σ.ballots.get id = some ballots → id ∈ σ.pollIds)
    (stage : Stage) : Others isLocal σ t (σ.setStage t stage) where
  writes := rfl
  nextVoteId := le_rfl
  pollIds _ hid := hid
  accountLock _ := Iff.rfl
  pollLock _ := Iff.rfl
  locked _ _ := rfl
  votes _ after hafter _ := ⟨after, hafter, rfl, fun _ _ => ⟨List.Sublist.refl _, fun _ => rfl⟩⟩
  created id after hafter hnew := absurd (hknown id after hafter) hnew

/-- A transaction keeps to what it has locked. -/
structure Within (σ : State) (t : TxnId) : Prop where
  touches : ∀ write ∈ σ.writes t, ∀ id, write.touches id → σ.pollLock id = some t
  concerns : ∀ write ∈ σ.writes t, ∀ accountId, write.concerns accountId →
    σ.accountLock accountId = some t

theorem Within.view (h : Within σ t) (hlock : σ.pollLock p ≠ some t) :
    (σ.view t).get p = σ.ballots.get p :=
  view_of_not_touches fun write hwrite htouches => hlock (h.touches write hwrite p htouches)

theorem others_of_own {other : TxnId} (hknown : ∀ id ballots, σ.ballots.get id = some ballots →
    id ∈ σ.pollIds) (h : Own σ t σ') (hne : other ≠ t) : Others isLocal σ other σ' where
  writes := h.writes other hne
  nextVoteId := h.nextVoteId
  pollIds id hid := h.pollIds ▸ hid
  accountLock := h.accountLock other hne
  pollLock := h.pollLock other hne
  locked id _ := by rw [h.ballots]
  votes id after hafter _ := by
    rw [h.ballots] at hafter
    exact ⟨after, hafter, rfl, fun _ _ => ⟨List.Sublist.refl _, fun _ => rfl⟩⟩
  created id after hafter hnew := by
    rw [h.ballots] at hafter
    exact absurd (hknown id after hafter) hnew

theorem others_of_commit {other : TxnId} (hknown : ∀ id ballots, σ.ballots.get id = some ballots →
    id ∈ σ.pollIds) (h : Within σ t) (hne : other ≠ t) : Others isLocal σ other (σ.commit t) := by
  have hown : Own σ t (σ.release t) := own_release
  refine
    { writes := hown.writes other hne
      nextVoteId := hown.nextVoteId
      pollIds := fun id hid => hid
      accountLock := hown.accountLock other hne
      pollLock := hown.pollLock other hne
      locked := fun id hlock => h.view fun hheld => hne (Option.some.inj (hlock.symm.trans hheld))
      votes := ?_
      created := ?_ }
  · intro id after hafter _
    have hafter : (σ.view t).get id = some after := hafter
    rw [get_view] at hafter
    obtain ⟨before, hbefore, hwritten⟩ := Option.bind_eq_some_iff.mp hafter
    refine ⟨before, hbefore, (written_poll hwritten).2, fun accountId hlock => ?_⟩
    have hsame : after.votesOf accountId = before.votesOf accountId :=
      votesOf_of_not_concerns (fun write hwrite hconcerns => hne (Option.some.inj
        (hlock.symm.trans (h.concerns write hwrite accountId hconcerns)))) hwritten
    exact ⟨hsame ▸ List.Sublist.refl _, fun _ => hsame⟩
  · intro id after hafter hnew
    have hafter : (σ.view t).get id = some after := hafter
    rw [get_view] at hafter
    obtain ⟨before, hbefore, -⟩ := Option.bind_eq_some_iff.mp hafter
    exact absurd (hknown id before hbefore) hnew

/-! ### What happens without a transaction -/

/-- A step that keeps to polls that nobody has locked. -/
structure Outside (isLocal : ℤ → Bool) (σ σ' : State) : Prop where
  nextVoteId : σ'.nextVoteId = σ.nextVoteId
  stages : σ'.stages = σ.stages
  writes : σ'.writes = σ.writes
  accountLock : σ'.accountLock = σ.accountLock
  pollLock : σ'.pollLock = σ.pollLock
  pollIds : ∀ id ∈ σ.pollIds, id ∈ σ'.pollIds
  known : ∀ id ballots, σ'.ballots.get id = some ballots → id ∈ σ'.pollIds
  locked : ∀ id t, σ.pollLock id = some t → σ'.ballots.get id = σ.ballots.get id
  /-- A poll that is new has no votes; another one keeps its votes, if it is local, and gets none. -/
  rows : ∀ id after, σ'.ballots.get id = some after →
    (id ∉ σ.pollIds ∧ after.votes = [] ∧ (isLocal after.poll.accountId = true → Exact after)) ∨
      ∃ before, σ.ballots.get id = some before ∧ after.poll.accountId = before.poll.accountId ∧
        after.votes.Sublist before.votes ∧
          (isLocal before.poll.accountId = true →
            after.votes = before.votes ∧ (Exact before → Exact after))

theorem others_of_outside (h : Outside isLocal σ σ')
    (hknown : ∀ id ballots, σ.ballots.get id = some ballots → id ∈ σ.pollIds) :
    Others isLocal σ t σ' where
  writes := by rw [h.writes]
  nextVoteId := h.nextVoteId.ge
  pollIds := h.pollIds
  accountLock accountId := by rw [h.accountLock]
  pollLock id := by rw [h.pollLock]
  locked id hlock := h.locked id t hlock
  votes id after hafter hid := by
    rcases h.rows id after hafter with ⟨hnew, -⟩ | ⟨before, hbefore, howner, hsub, hlocal⟩
    · exact absurd hid hnew
    · refine ⟨before, hbefore, howner, fun accountId _ => ⟨hsub.filter _, fun hisLocal => ?_⟩⟩
      rw [Ballots.votesOf, (hlocal hisLocal).1, Ballots.votesOf]
  created id after hafter hnew := by
    rcases h.rows id after hafter with ⟨-, hnone, -⟩ | ⟨before, hbefore, -⟩
    · exact hnone
    · exact absurd (hknown id before hbefore) hnew

end Rustodon.Polls.Votes
