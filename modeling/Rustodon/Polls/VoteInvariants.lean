import Rustodon.Polls.VoteFrames

/-! @src mastodon/write_repository.rs | name:Invariants of votes | scheme:invariants, frames |
    family:polls

    What holds of a transaction at each of its stages, and that no step of another one changes it. A
    ballot that is being cast relies on the row and on the votes it has read, a removal on the counts
    of the polls that it has not come to. -/

namespace Rustodon.Polls.Votes
open Schemes.Tables

variable {isLocal : ℤ → Bool} {σ σ' : State} {t : TxnId} {p : ℤ} {ballots ballots' : Ballots}
  {accountId : ℤ}

variable (isLocal) in
/-- A poll whose counts are exact, if it is local, and that has fewer votes than ids were given. -/
structure Good (σ : State) (ballots : Ballots) : Prop where
  few : (ballots.votes.length : ℤ) < σ.nextVoteId
  exact : isLocal ballots.poll.accountId = true → Exact ballots

theorem Good.mono (h : Good isLocal σ ballots) (hle : σ.nextVoteId ≤ σ'.nextVoteId) :
    Good isLocal σ' ballots :=
  ⟨lt_of_lt_of_le h.few hle, h.exact⟩

variable (isLocal) in
/-- The transaction could commit. -/
def Clean (σ : State) (t : TxnId) : Prop :=
  ∀ p ballots, (σ.view t).get p = some ballots → Good isLocal σ ballots

/-- The transaction has locked a voter and a poll, whose row it has read. -/
def Reads (σ : State) (t : TxnId) (accountId : ℤ) (poll : Poll) (P : Ballots → Prop) : Prop :=
  σ.accountLock accountId = some t ∧ σ.pollLock poll.id = some t ∧
    ∃ ballots, σ.ballots.get poll.id = some ballots ∧ ballots.poll = poll ∧ P ballots

/-- The choice is an option of the poll. -/
def IsOption (poll : Poll) (choice : ℤ) : Prop := 0 ≤ choice ∧ choice < poll.options.length

variable (isLocal) in
/-- The rows of a ballot that have been inserted, next to those that are to come. -/
structure Casts (σ : State) (t : TxnId) (casting : Casting) (ballots : Ballots)
    (inserted : List PollVote) : Prop where
  writes : σ.writes t = inserted.map .insertVote
  cast : CastBy casting.poll.id casting.accountId casting.uri inserted
  tallies : casting.tallies = (inserted.map PollVote.choice).foldl countVote
    (resizeTallies casting.poll.cachedTallies casting.poll.options.length)
  firstBallot : casting.firstBallot = (ballots.choicesOf casting.accountId).isEmpty
  votes : casting.votes = inserted.length + casting.remaining.length
  some_vote : 0 < casting.votes
  few : (ballots.votes.length + inserted.length : ℤ) < σ.nextVoteId
  admissible : isLocal ballots.poll.accountId = true →
    Admissible ballots casting.accountId casting.uri
      (inserted.map PollVote.choice ++ casting.remaining)

variable (isLocal) in
/-- The polls of a removal: those that it has not come to count the votes of the account exactly,
    and the others count all votes but these. -/
structure Draining (σ : State) (t : TxnId) (accountId : ℤ) (remaining : List (ℤ × List ℤ)) : Prop where
  account : σ.accountLock accountId = some t
  few : ∀ p ballots, (σ.view t).get p = some ballots → (ballots.votes.length : ℤ) < σ.nextVoteId
  known : ∀ entry ∈ remaining, entry.1 ∈ σ.pollIds
  waiting : ∀ p ballots choices, (σ.view t).get p = some ballots → (p, choices) ∈ remaining →
    isLocal ballots.poll.accountId = true →
      Exact ballots ∧ ballots.choicesOf accountId = choices ∧ choices ≠ []
  locked : ∀ p ballots, (σ.view t).get p = some ballots → p ∉ remaining.map Prod.fst →
    ballots.choicesOf accountId ≠ [] → σ.pollLock p = some t
  exact : ∀ p ballots, (σ.view t).get p = some ballots → p ∉ remaining.map Prod.fst →
    isLocal ballots.poll.accountId = true → Exact (ballots.without accountId)

def Holds (σ : State) (t : TxnId) (own : List ℤ) : Prop := ∀ id ∈ own, σ.pollLock id = some t

variable (isLocal) in
def StageInvariant (σ : State) (t : TxnId) : Stage → Prop
  | .idle => σ.writes t = []
  | .ballot ballot => σ.writes t = [] ∧ σ.accountLock ballot.accountId = some t
  | .ballotAuthorized ballot =>
    σ.writes t = [] ∧ σ.accountLock ballot.accountId = some t
  | .ballotPoll ballot poll =>
    σ.writes t = [] ∧ ballot.choices ≠ [] ∧ Reads σ t ballot.accountId poll fun _ => True
  | .activity activity => σ.writes t = [] ∧ isLocal activity.accountId = false ∧
    σ.accountLock activity.accountId = some t
  | .activityQuestion activity _ => σ.writes t = [] ∧ isLocal activity.accountId = false ∧
    σ.accountLock activity.accountId = some t
  | .activityAuthorized activity _ => σ.writes t = [] ∧ isLocal activity.accountId = false ∧
    σ.accountLock activity.accountId = some t
  | .activityPoll activity poll choice =>
    σ.writes t = [] ∧ isLocal activity.accountId = false ∧ IsOption poll choice ∧ Reads σ t activity.accountId poll fun _ => True
  | .activityNew activity poll choice =>
    σ.writes t = [] ∧ isLocal activity.accountId = false ∧ IsOption poll choice ∧ Reads σ t activity.accountId poll fun ballots =>
      ∀ vote ∈ ballots.votesOf activity.accountId, vote.uri ≠ some activity.voteUri
  | .casting casting =>
    Reads σ t casting.accountId casting.poll fun ballots =>
      ∃ inserted, Casts isLocal σ t casting ballots inserted
  | .counted => Clean isLocal σ t
  | .removing accountId => Clean isLocal σ t ∧ σ.accountLock accountId = some t
  | .lockingOwn accountId _ own =>
    Clean isLocal σ t ∧ σ.accountLock accountId = some t ∧ Holds σ t own
  | .discounting accountId own remaining =>
    Holds σ t own ∧ Draining isLocal σ t accountId remaining
  | .discountingPoll accountId own remaining poll choices =>
    Holds σ t own ∧ Draining isLocal σ t accountId remaining ∧ (poll.id, choices) ∈ remaining ∧
      σ.pollLock poll.id = some t ∧
        ∃ ballots, (σ.view t).get poll.id = some ballots ∧ ballots.poll = poll
  | .votesDeleted own => Clean isLocal σ t ∧ Holds σ t own
  | .removed => Clean isLocal σ t

variable (isLocal) in
/-- What holds of a transaction. -/
structure TxnInvariant (σ : State) (t : TxnId) : Prop extends Within σ t where
  stage : StageInvariant isLocal σ t (σ.stages t)

variable (isLocal) in
structure Invariant (σ : State) : Prop where
  good : ∀ p ballots, σ.ballots.get p = some ballots → Good isLocal σ ballots
  known : ∀ p ballots, σ.ballots.get p = some ballots → p ∈ σ.pollIds
  lockedKnown : ∀ p t, σ.pollLock p = some t → p ∈ σ.pollIds
  limit : 1 ≤ σ.nextVoteId ∧ σ.nextVoteId ≤ 2 ^ 63
  txns : ∀ t, TxnInvariant isLocal σ t

theorem invariant_initial : Invariant isLocal State.initial where
  good _ _ h := by cases h
  known _ _ h := by cases h
  lockedKnown _ _ h := by cases h
  limit := by simp [State.initial]
  txns t :=
    { touches := fun _ hwrite => by cases hwrite
      concerns := fun _ hwrite => by cases hwrite
      stage := rfl }

theorem Invariant.known_of_view (h : Invariant isLocal σ) (hview : (σ.view t).get p = some ballots) :
    p ∈ σ.pollIds := by
  rw [get_view] at hview
  obtain ⟨before, hbefore, -⟩ := Option.bind_eq_some_iff.mp hview
  exact h.known p before hbefore

/-- Nothing was written: what the transaction sees is committed. -/
theorem clean_of_nothing (hgood : ∀ p ballots, σ.ballots.get p = some ballots → Good isLocal σ ballots)
    (h : σ.writes t = []) : Clean isLocal σ t := fun p ballots hview =>
  hgood p ballots (view_of_nothing h ▸ hview)

theorem within_of_nothing (h : σ.writes t = []) : Within σ t where
  touches write hwrite := by
    rw [h] at hwrite
    cases hwrite
  concerns write hwrite := by
    rw [h] at hwrite
    cases hwrite

/-! ### What the others leave to a transaction -/

section Others

variable (h : Others isLocal σ t σ')
include h

theorem Within.others (hwithin : Within σ t) : Within σ' t where
  touches write hwrite id htouches := (h.pollLock id).mpr
    (hwithin.touches write (h.writes ▸ hwrite) id htouches)
  concerns write hwrite accountId hconcerns := (h.accountLock accountId).mpr
    (hwithin.concerns write (h.writes ▸ hwrite) accountId hconcerns)

theorem view_of_locked (hlock : σ.pollLock p = some t) : (σ'.view t).get p = (σ.view t).get p :=
  view_congr (h.locked p hlock) h.writes

theorem view_of_unlocked (hwithin : Within σ t) (hlock : σ.pollLock p ≠ some t) :
    (σ'.view t).get p = σ'.ballots.get p :=
  (hwithin.others h).view fun hlock' => hlock ((h.pollLock p).mp hlock')

/-- What a transaction sees is what it has seen, or what others have committed of a poll that it has
    not locked. -/
theorem view_cases (hwithin : Within σ t)
    (hview : (σ'.view t).get p = some ballots) :
    (σ.pollLock p = some t ∧ (σ.view t).get p = some ballots) ∨
      (σ.pollLock p ≠ some t ∧ σ'.ballots.get p = some ballots) := by
  by_cases hlock : σ.pollLock p = some t
  · rw [view_of_locked h hlock] at hview
    exact .inl ⟨hlock, hview⟩
  · rw [view_of_unlocked h hwithin hlock] at hview
    exact .inr ⟨hlock, hview⟩

theorem Clean.others (hwithin : Within σ t)
    (hgood : ∀ p ballots, σ'.ballots.get p = some ballots → Good isLocal σ' ballots)
    (hclean : Clean isLocal σ t) : Clean isLocal σ' t := by
  intro p ballots hview
  rcases view_cases h hwithin hview with ⟨-, hview⟩ | ⟨-, hcommitted⟩
  · exact (hclean p ballots hview).mono h.nextVoteId
  · exact hgood p ballots hcommitted

theorem Reads.others {poll : Poll} {P Q : Ballots → Prop} (hPQ : ∀ ballots, P ballots → Q ballots)
    (hreads : Reads σ t accountId poll P) : Reads σ' t accountId poll Q := by
  obtain ⟨haccount, hpoll, ballots, hget, hrow, hP⟩ := hreads
  exact ⟨(h.accountLock accountId).mpr haccount, (h.pollLock poll.id).mpr hpoll, ballots,
    (h.locked poll.id hpoll).trans hget, hrow, hPQ ballots hP⟩

theorem Casts.others {casting : Casting} {inserted : List PollVote}
    (hcasts : Casts isLocal σ t casting ballots inserted) :
    Casts isLocal σ' t casting ballots inserted :=
  { hcasts with
    writes := h.writes.trans hcasts.writes
    few := lt_of_lt_of_le hcasts.few h.nextVoteId }

theorem Holds.others {own : List ℤ} (hholds : Holds σ t own) : Holds σ' t own :=
  fun id hid => (h.pollLock id).mpr (hholds id hid)

/-- The account has no votes in a poll that is new, and gets none in another one. -/
theorem choicesOf_of_unlocked (hwithin : Within σ t) (haccount : σ.accountLock accountId = some t)
    (hlock : σ.pollLock p ≠ some t) (hget : σ'.ballots.get p = some ballots)
    (hvoted : ballots.choicesOf accountId ≠ []) :
    ∃ before, (σ.view t).get p = some before ∧ before.choicesOf accountId ≠ [] := by
  by_cases hid : p ∈ σ.pollIds
  · obtain ⟨before, hbefore, -, hvotes⟩ := h.votes p ballots hget hid
    refine ⟨before, (hwithin.view hlock).trans hbefore, fun hnone => hvoted ?_⟩
    have hsub := (hvotes accountId haccount).1
    rw [Ballots.choicesOf, List.map_eq_nil_iff] at hnone ⊢
    exact List.sublist_nil.mp (hnone ▸ hsub)
  · refine absurd ?_ hvoted
    rw [Ballots.choicesOf, Ballots.votesOf, h.created p ballots hget hid]
    rfl

theorem Draining.others {remaining : List (ℤ × List ℤ)} (hwithin : Within σ t)
    (hgood : ∀ p ballots, σ'.ballots.get p = some ballots → Good isLocal σ' ballots)
    (hdraining : Draining isLocal σ t accountId remaining) :
    Draining isLocal σ' t accountId remaining where
  account := (h.accountLock accountId).mpr hdraining.account
  few p ballots hview := by
    rcases view_cases h hwithin hview with ⟨-, hview⟩ | ⟨-, hcommitted⟩
    · exact lt_of_lt_of_le (hdraining.few p ballots hview) h.nextVoteId
    · exact (hgood p ballots hcommitted).few
  known entry hentry := h.pollIds _ (hdraining.known entry hentry)
  waiting p ballots choices hview hentry hisLocal := by
    rcases view_cases h hwithin hview with ⟨-, hview⟩ | ⟨hlock, hcommitted⟩
    · exact hdraining.waiting p ballots choices hview hentry hisLocal
    · obtain ⟨before, hbefore, howner, hvotes⟩ :=
        h.votes p ballots hcommitted (hdraining.known _ hentry)
      rw [howner] at hisLocal
      have hbefore := (hwithin.view hlock).trans hbefore
      obtain ⟨-, hchoices, hne⟩ := hdraining.waiting p before choices hbefore hentry hisLocal
      refine ⟨(hgood p ballots hcommitted).exact (howner ▸ hisLocal), ?_, hne⟩
      rw [Ballots.choicesOf, (hvotes accountId hdraining.account).2 hisLocal, ← hchoices,
        Ballots.choicesOf]
  locked p ballots hview hdone hvoted := by
    rcases view_cases h hwithin hview with ⟨hlock, -⟩ | ⟨hlock, hcommitted⟩
    · exact (h.pollLock p).mpr hlock
    · obtain ⟨before, hbefore, hvotedBefore⟩ :=
        choicesOf_of_unlocked h hwithin hdraining.account hlock hcommitted hvoted
      exact absurd (hdraining.locked p before hbefore hdone hvotedBefore) hlock
  exact p ballots hview hdone hisLocal := by
    rcases view_cases h hwithin hview with ⟨-, hview⟩ | ⟨hlock, hcommitted⟩
    · exact hdraining.exact p ballots hview hdone hisLocal
    · have hnone : ballots.choicesOf accountId = [] := by
        by_contra hvoted
        obtain ⟨before, hbefore, hvotedBefore⟩ :=
          choicesOf_of_unlocked h hwithin hdraining.account hlock hcommitted hvoted
        exact hlock (hdraining.locked p before hbefore hdone hvotedBefore)
      rw [Ballots.without_eq_self hnone]
      exact (hgood p ballots hcommitted).exact hisLocal

theorem StageInvariant.others (hwithin : Within σ t)
    (hgood : ∀ p ballots, σ'.ballots.get p = some ballots → Good isLocal σ' ballots) {stage : Stage}
    (hstage : StageInvariant isLocal σ t stage) : StageInvariant isLocal σ' t stage := by
  have hnothing : σ.writes t = [] → σ'.writes t = [] := fun hnone => h.writes.trans hnone
  have haccount : ∀ {accountId}, σ.accountLock accountId = some t →
      σ'.accountLock accountId = some t := fun hlock => (h.accountLock _).mpr hlock
  cases stage with
  | idle => exact hnothing hstage
  | ballot ballot => exact ⟨hnothing hstage.1, haccount hstage.2⟩
  | ballotAuthorized ballot => exact ⟨hnothing hstage.1, haccount hstage.2⟩
  | ballotPoll ballot poll =>
    exact ⟨hnothing hstage.1, hstage.2.1, hstage.2.2.others h fun _ => id⟩
  | activity activity => exact ⟨hnothing hstage.1, hstage.2.1, haccount hstage.2.2⟩
  | activityQuestion activity id => exact ⟨hnothing hstage.1, hstage.2.1, haccount hstage.2.2⟩
  | activityAuthorized activity id => exact ⟨hnothing hstage.1, hstage.2.1, haccount hstage.2.2⟩
  | activityPoll activity poll choice =>
    obtain ⟨hnone, hremote, hoption, hreads⟩ := hstage
    exact ⟨hnothing hnone, hremote, hoption, hreads.others h fun _ => id⟩
  | activityNew activity poll choice =>
    obtain ⟨hnone, hremote, hoption, hreads⟩ := hstage
    exact ⟨hnothing hnone, hremote, hoption, hreads.others h fun _ => id⟩
  | casting casting =>
    exact Reads.others h (fun _ ⟨inserted, hcasts⟩ => ⟨inserted, hcasts.others h⟩) hstage
  | counted => exact Clean.others h hwithin hgood hstage
  | removing accountId => exact ⟨hstage.1.others h hwithin hgood, haccount hstage.2⟩
  | lockingOwn accountId candidates own =>
    obtain ⟨hclean, hlock, hholds⟩ := hstage
    exact ⟨hclean.others h hwithin hgood, haccount hlock, hholds.others h⟩
  | discounting accountId own remaining =>
    exact ⟨hstage.1.others h, hstage.2.others h hwithin hgood⟩
  | discountingPoll accountId own remaining poll choices =>
    obtain ⟨hholds, hdraining, hentry, hlock, ballots, hview, hrow⟩ := hstage
    exact ⟨hholds.others h, hdraining.others h hwithin hgood, hentry, (h.pollLock _).mpr hlock,
      ballots, (view_of_locked h hlock).trans hview, hrow⟩
  | votesDeleted own => exact ⟨hstage.1.others h hwithin hgood, hstage.2.others h⟩
  | removed => exact Clean.others h hwithin hgood hstage

theorem TxnInvariant.others (hsame : σ'.stages t = σ.stages t)
    (hgood : ∀ p ballots, σ'.ballots.get p = some ballots → Good isLocal σ' ballots)
    (htxn : TxnInvariant isLocal σ t) : TxnInvariant isLocal σ' t where
  toWithin := htxn.toWithin.others h
  stage := by
    rw [hsame]
    exact htxn.stage.others h htxn.toWithin hgood

end Others

/-! ### What a step of a transaction has to show -/

/-- The others keep their invariants. -/
theorem Invariant.of_own (h : Invariant isLocal σ) (hown : Own σ t σ') (hlimit : σ'.nextVoteId ≤ 2 ^ 63)
    (hwithin : Within σ' t) (hstage : StageInvariant isLocal σ' t (σ'.stages t)) :
    Invariant isLocal σ' := by
  have hgood : ∀ p ballots, σ'.ballots.get p = some ballots → Good isLocal σ' ballots := by
    intro p ballots hget
    rw [hown.ballots] at hget
    exact (h.good p ballots hget).mono hown.nextVoteId
  refine ⟨hgood, ?_, ?_, ⟨h.limit.1.trans hown.nextVoteId, hlimit⟩, fun other => ?_⟩
  · intro p ballots hget
    rw [hown.ballots] at hget
    rw [hown.pollIds]
    exact h.known p ballots hget
  · intro p other hlock
    rw [hown.pollIds]
    by_cases hne : other = t
    · subst hne
      exact (hown.held p hlock).elim (h.lockedKnown p other) id
    · exact h.lockedKnown p other ((hown.pollLock other hne p).mp hlock)
  · by_cases hne : other = t
    · subst hne
      exact ⟨hwithin, hstage⟩
    · exact (h.txns other).others (others_of_own h.known hown hne) (hown.stages other hne) hgood

theorem Invariant.rollback (h : Invariant isLocal σ) : Invariant isLocal (σ.rollback t) := by
  have hnothing : (σ.release t).writes t = [] := Function.update_self ..
  refine h.of_own own_release h.limit.2 (within_of_nothing hnothing) ?_
  have hidle : (σ.release t).stages t = .idle := Function.update_self ..
  rw [State.rollback, hidle]
  exact hnothing

theorem Invariant.commit (h : Invariant isLocal σ) (hclean : Clean isLocal σ t) :
    Invariant isLocal (σ.commit t) := by
  have hgood : ∀ p ballots, (σ.commit t).ballots.get p = some ballots →
      Good isLocal (σ.commit t) ballots := fun p ballots hget =>
    (hclean p ballots hget).mono le_rfl
  refine ⟨hgood, fun p ballots hget => h.known_of_view hget, ?_, h.limit, fun other => ?_⟩
  · intro p other hlock
    have hlock : (if σ.pollLock p = some t then none else σ.pollLock p) = some other := hlock
    split at hlock
    · cases hlock
    · exact h.lockedKnown p other hlock
  · by_cases hne : other = t
    · subst hne
      have hnothing : (σ.commit other).writes other = [] := Function.update_self ..
      have hidle : (σ.commit other).stages other = .idle := Function.update_self ..
      refine ⟨within_of_nothing hnothing, ?_⟩
      rw [hidle]
      exact hnothing
    · exact (h.txns other).others (others_of_commit h.known (h.txns t).toWithin hne)
        (Function.update_of_ne hne _ _) hgood

theorem Invariant.outside (h : Invariant isLocal σ) (houtside : Outside isLocal σ σ') :
    Invariant isLocal σ' := by
  have hgood : ∀ p ballots, σ'.ballots.get p = some ballots → Good isLocal σ' ballots := by
    intro p after hafter
    rcases houtside.rows p after hafter with ⟨-, hnone, hexact⟩ | ⟨before, hbefore, howner, hsub, hlocal⟩
    · refine ⟨?_, hexact⟩
      rw [hnone, houtside.nextVoteId]
      exact lt_of_lt_of_le Int.zero_lt_one h.limit.1
    · have hgood := h.good p before hbefore
      refine ⟨?_, fun hisLocal => ?_⟩
      · have hlength := hsub.length_le
        have hfew := hgood.few
        rw [houtside.nextVoteId]
        omega
      · rw [howner] at hisLocal
        exact (hlocal hisLocal).2 (hgood.exact hisLocal)
  refine ⟨hgood, houtside.known, fun p t hlock => ?_, houtside.nextVoteId ▸ h.limit, fun t => ?_⟩
  · rw [houtside.pollLock] at hlock
    exact houtside.pollIds p (h.lockedKnown p t hlock)
  exact (h.txns t).others (others_of_outside houtside h.known) (by rw [houtside.stages]) hgood

/-- A step that writes nothing keeps the transaction within what it has locked. -/
theorem Within.of_own (h : Within σ t) (hwrites : σ'.writes t = σ.writes t)
    (haccount : ∀ accountId, σ.accountLock accountId = some t → σ'.accountLock accountId = some t)
    (hpoll : ∀ id, σ.pollLock id = some t → σ'.pollLock id = some t) : Within σ' t where
  touches write hwrite id htouches := hpoll id (h.touches write (hwrites ▸ hwrite) id htouches)
  concerns write hwrite accountId hconcerns :=
    haccount accountId (h.concerns write (hwrites ▸ hwrite) accountId hconcerns)

theorem Within.write {write : Write} (h : Within σ t)
    (htouches : ∀ id, write.touches id → σ.pollLock id = some t)
    (hconcerns : ∀ accountId, write.concerns accountId → σ.accountLock accountId = some t) :
    Within (σ.write t write) t := by
  have hwrites : (σ.write t write).writes t = σ.writes t ++ [write] := Function.update_self ..
  constructor
  · intro other hother id hid
    rw [hwrites] at hother
    rcases List.mem_append.mp hother with hother | hother
    · exact h.touches other hother id hid
    · exact htouches id (List.mem_singleton.mp hother ▸ hid)
  · intro other hother accountId haccount
    rw [hwrites] at hother
    rcases List.mem_append.mp hother with hother | hother
    · exact h.concerns other hother accountId haccount
    · exact hconcerns accountId (List.mem_singleton.mp hother ▸ haccount)

end Rustodon.Polls.Votes
