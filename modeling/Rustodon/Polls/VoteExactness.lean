import Rustodon.Polls.VoteInvariants

/-! @src mastodon/write_repository.rs | name:Exact tallies | scheme:invariants, labelled runs |
    family:polls

    Every step keeps the invariants, so that the committed counts of a local poll are those of its
    votes in every state that the system comes to. -/

namespace Rustodon.Polls.Votes
open Schemes.Tables Schemes.Runs
open Ingest (WriteError Written)

variable {isLocal : ℤ → Bool} {σ σ' : State} {t : TxnId} {p : ℤ} {ballots ballots' : Ballots}
  {accountId : ℤ} {response : Response}

variable (isLocal) in
/-- A step keeps the invariants, and it leaves the rows as they were unless it is a commit. -/
def Keeps (σ σ' : State) (response : Response) : Prop :=
  Invariant isLocal σ' ∧ (response ≠ .committed → σ'.ballots = σ.ballots)

theorem keeps_rollback (h : Invariant isLocal σ) : Keeps isLocal σ (σ.rollback t) response :=
  ⟨h.rollback, fun _ => rfl⟩

/-- A transaction that has written nothing commits nothing. -/
theorem keeps_commit (h : Invariant isLocal σ) (hnothing : σ.writes t = []) :
    Keeps isLocal σ (σ.commit t) response := by
  refine ⟨h.commit (clean_of_nothing h.good hnothing), fun _ => ?_⟩
  have hview : σ.view t = σ.ballots := by
    have hrows : (σ.view t).rows = σ.ballots.rows := by
      have hall : σ.ballots.rows.filterMap (written (σ.writes t)) = σ.ballots.rows := by
        rw [hnothing]
        exact List.filterMap_some
      exact hall
    cases hσ : σ.view t
    cases hballots : σ.ballots
    rw [hσ, hballots] at hrows
    subst hrows
    rfl
  exact hview

theorem keeps_continued (h : Invariant isLocal σ') (hballots : σ'.ballots = σ.ballots) :
    Keeps isLocal σ σ' response :=
  ⟨h, fun _ => hballots⟩

/-- A step of a transaction that commits nothing comes to a stage. -/
theorem Invariant.to_stage (h : Invariant isLocal σ) (hown : Own σ t σ')
    (hlimit : σ'.nextVoteId ≤ 2 ^ 63) (hwithin : Within σ' t) {stage : Stage}
    (hstage : StageInvariant isLocal σ' t stage) : Invariant isLocal (σ'.setStage t stage) := by
  have hgood : ∀ p ballots, (σ'.setStage t stage).ballots.get p = some ballots →
      Good isLocal (σ'.setStage t stage) ballots := by
    intro p ballots hget
    rw [ballots_setStage, hown.ballots] at hget
    exact (h.good p ballots hget).mono hown.nextVoteId
  have hknown : ∀ p ballots, σ'.ballots.get p = some ballots → p ∈ σ'.pollIds := by
    intro p ballots hget
    rw [hown.ballots] at hget
    rw [hown.pollIds]
    exact h.known p ballots hget
  have hothers : Others isLocal σ' t (σ'.setStage t stage) := others_setStage hknown stage
  refine h.of_own (hown.trans (own_setStage stage)) hlimit (hwithin.others hothers) ?_
  rw [stages_setStage]
  exact hstage.others hothers hwithin hgood

/-- A step to another stage. -/
theorem Invariant.setStage (h : Invariant isLocal σ) {stage : Stage}
    (hstage : StageInvariant isLocal σ t stage) : Invariant isLocal (σ.setStage t stage) :=
  h.to_stage Own.refl h.limit.2 (h.txns t).toWithin hstage

theorem Invariant.holdAccount (h : Invariant isLocal σ) {stage : Stage}
    (hfree : State.Free t (σ.accountLock accountId))
    (hstage : StageInvariant isLocal (σ.holdAccount t accountId) t stage) :
    Invariant isLocal ((σ.holdAccount t accountId).setStage t stage) :=
  h.to_stage (own_holdAccount hfree) h.limit.2
    ((h.txns t).toWithin.of_own rfl (fun _ => accountLock_of_holdAccount) fun _ => id) hstage

theorem Invariant.holdPoll (h : Invariant isLocal σ) {stage : Stage}
    (hfree : State.Free t (σ.pollLock p)) (hview : (σ.view t).get p = some ballots)
    (hstage : StageInvariant isLocal (σ.holdPoll t p) t stage) :
    Invariant isLocal ((σ.holdPoll t p).setStage t stage) :=
  h.to_stage (own_holdPoll hfree (h.known_of_view hview)) h.limit.2
    ((h.txns t).toWithin.of_own rfl (fun _ => id) fun _ => pollLock_of_holdPoll) hstage

theorem Invariant.write (h : Invariant isLocal σ) {write : Write} {stage : Stage}
    (htouches : ∀ id, write.touches id → σ.pollLock id = some t)
    (hconcerns : ∀ accountId, write.concerns accountId → σ.accountLock accountId = some t)
    (hstage : StageInvariant isLocal (σ.write t write) t stage) :
    Invariant isLocal ((σ.write t write).setStage t stage) :=
  h.to_stage own_write h.limit.2 ((h.txns t).toWithin.write htouches hconcerns) hstage

/-! ### Votes -/

theorem votePoll_keeps {ballot : Ballot} (h : Invariant isLocal σ)
    (hstep : votePoll σ t ballot = some (σ', response)) : Keeps isLocal σ σ' response := by
  have hstage := (h.txns t).stage
  rw [votePoll] at hstep
  split at hstep
  · rename_i hidle
    rw [hidle] at hstage
    split at hstep
    · rename_i hfree
      obtain ⟨rfl, rfl⟩ := Prod.mk.inj (Option.some.inj hstep)
      exact keeps_continued (h.holdAccount hfree ⟨hstage, accountLock_holdAccount _⟩) rfl
    · cases hstep
  · cases hstep

theorem applyRemotePollVote_keeps {activity : VoteActivity} {actorMatches : Bool}
    (h : Invariant isLocal σ)
    (hstep : applyRemotePollVote σ t isLocal activity actorMatches = some (σ', response)) :
    Keeps isLocal σ σ' response := by
  have hstage := (h.txns t).stage
  rw [applyRemotePollVote] at hstep
  split at hstep
  · rename_i hidle
    rw [hidle] at hstage
    split at hstep
    · obtain ⟨rfl, rfl⟩ := Prod.mk.inj (Option.some.inj hstep)
      exact keeps_commit h hstage
    rename_i hactor
    split at hstep
    · rename_i hfree
      obtain ⟨rfl, rfl⟩ := Prod.mk.inj (Option.some.inj hstep)
      have hremote : isLocal activity.accountId = false := by
        simp only [Bool.or_eq_true, not_or, Bool.not_eq_true] at hactor
        exact hactor.1
      exact keeps_continued (h.holdAccount hfree ⟨hstage, hremote, accountLock_holdAccount _⟩) rfl
    · cases hstep
  · cases hstep

theorem findQuestion_keeps {found : Option ℤ} (h : Invariant isLocal σ)
    (hstep : findQuestion σ t found = some (σ', response)) : Keeps isLocal σ σ' response := by
  have hstage := (h.txns t).stage
  rw [findQuestion] at hstep
  split at hstep
  · rename_i activity hactivity
    rw [hactivity] at hstage
    split at hstep <;> obtain ⟨rfl, rfl⟩ := Prod.mk.inj (Option.some.inj hstep)
    · exact keeps_continued (h.setStage hstage) rfl
    · exact keeps_commit h hstage.1
  · cases hstep

theorem authorizePollVote_keeps {result : Written Unit} (h : Invariant isLocal σ)
    (hstep : authorizePollVote σ t result = some (σ', response)) : Keeps isLocal σ σ' response := by
  have hstage := (h.txns t).stage
  unfold authorizePollVote at hstep
  split at hstep
  · rename_i ballot hballot
    rw [hballot] at hstage
    obtain ⟨rfl, rfl⟩ := Prod.mk.inj (Option.some.inj hstep)
    exact keeps_continued (h.setStage hstage) rfl
  · obtain ⟨rfl, rfl⟩ := Prod.mk.inj (Option.some.inj hstep)
    exact keeps_rollback h
  · rename_i activity id hactivity
    rw [hactivity] at hstage
    obtain ⟨rfl, rfl⟩ := Prod.mk.inj (Option.some.inj hstep)
    exact keeps_continued (h.setStage hstage) rfl
  · rename_i activity id hactivity
    rw [hactivity] at hstage
    obtain ⟨rfl, rfl⟩ := Prod.mk.inj (Option.some.inj hstep)
    exact keeps_commit h hstage.1
  · rename_i activity id hactivity
    rw [hactivity] at hstage
    obtain ⟨rfl, rfl⟩ := Prod.mk.inj (Option.some.inj hstep)
    exact keeps_commit h hstage.1
  · obtain ⟨rfl, rfl⟩ := Prod.mk.inj (Option.some.inj hstep)
    exact keeps_rollback h
  · cases hstep

/-- A row that is locked where nothing was written is the committed one. -/
theorem reads_of_holdPoll {id : ℤ} (hnothing : σ.writes t = [])
    (haccount : σ.accountLock accountId = some t) (hview : (σ.view t).get id = some ballots) :
    Reads (σ.holdPoll t id) t accountId ballots.poll fun _ => True := by
  have hkey : pollId ballots = id := Table.key_of_get hview
  subst hkey
  exact ⟨haccount, pollLock_holdPoll _, ballots, (view_of_nothing hnothing).symm.trans hview, rfl, trivial⟩

theorem isOption_of_findIdx {poll : Poll} {option : String} {choice : ℕ}
    (h : (poll.options.findIdx? fun candidate => candidate == option) = some choice) :
    IsOption poll choice := by
  obtain ⟨hlt, -⟩ := List.findIdx?_eq_some_iff_getElem.mp h
  exact ⟨Int.natCast_nonneg _, Int.ofNat_lt.mpr hlt⟩

theorem lockPoll_keeps (h : Invariant isLocal σ) (hstep : lockPoll σ t = some (σ', response)) :
    Keeps isLocal σ σ' response := by
  have hstage := (h.txns t).stage
  rw [lockPoll] at hstep
  split at hstep
  · rename_i ballot hballot
    rw [hballot] at hstage
    split at hstep
    · rename_i hfree
      split at hstep
      · obtain ⟨rfl, rfl⟩ := Prod.mk.inj (Option.some.inj hstep)
        exact keeps_rollback h
      · rename_i ballots hview
        split at hstep <;> obtain ⟨rfl, rfl⟩ := Prod.mk.inj (Option.some.inj hstep)
        · exact keeps_commit h hstage.1
        · rename_i hchoices
          refine keeps_continued (h.holdPoll hfree hview ⟨hstage.1, ?_, ?_⟩) rfl
          · simpa using hchoices
          · exact reads_of_holdPoll hstage.1 hstage.2 hview
    · cases hstep
  · rename_i activity id hactivity
    rw [hactivity] at hstage
    split at hstep
    · rename_i hfree
      split at hstep
      · obtain ⟨rfl, rfl⟩ := Prod.mk.inj (Option.some.inj hstep)
        exact keeps_commit h hstage.1
      · rename_i ballots hview
        split at hstep
        · obtain ⟨rfl, rfl⟩ := Prod.mk.inj (Option.some.inj hstep)
          exact keeps_commit h hstage.1
        · rename_i choice hchoice
          split at hstep <;> obtain ⟨rfl, rfl⟩ := Prod.mk.inj (Option.some.inj hstep)
          · obtain ⟨hnothing, hremote, haccount⟩ := hstage
            exact keeps_continued (h.holdPoll hfree hview ⟨hnothing, hremote, isOption_of_findIdx hchoice,
              reads_of_holdPoll hnothing haccount hview⟩) rfl
          · exact keeps_rollback h
    · cases hstep
  · cases hstep

theorem readUri_keeps (h : Invariant isLocal σ) (hstep : readUri σ t = some (σ', response)) :
    Keeps isLocal σ σ' response := by
  have hstage := (h.txns t).stage
  rw [readUri] at hstep
  split at hstep
  · rename_i activity poll choice hactivity
    rw [hactivity] at hstage
    obtain ⟨hnothing, hremote, hoption, haccount, hpoll, ballots, hget, hrow, -⟩ := hstage
    split at hstep <;> obtain ⟨rfl, rfl⟩ := Prod.mk.inj (Option.some.inj hstep)
    · exact keeps_commit h hnothing
    · rename_i hnew
      refine keeps_continued (h.setStage
        ⟨hnothing, hremote, hoption, haccount, hpoll, ballots, hget, hrow, fun vote hvote huri =>
          hnew ?_⟩) rfl
      rw [view_of_nothing hnothing, hget, Option.any_some, List.any_eq_true]
      exact ⟨vote, hvote, decide_eq_true huri⟩
  · cases hstep

/-! ### The ballots that are allowed -/

theorem checkChoices_ok {poll : Poll} : ∀ {existing choices : List ℤ},
    checkChoices accountId poll existing choices = .ok () →
      (∀ choice ∈ choices, IsOption poll choice) ∧ (choices ≠ [] → accountId ≠ poll.accountId) ∧
        (poll.multiple = true → existing.Nodup → (existing ++ choices).Nodup) ∧
          (poll.multiple = false → choices ≠ [] → (existing ++ choices).length ≤ 1)
  | existing, [], _ => by simp
  | existing, choice :: choices, h => by
    rw [checkChoices] at h
    split at h
    · cases h
    rename_i hpos
    split at h
    · cases h
    rename_i hlt
    split at h
    · cases h
    rename_i howner
    split at h
    · cases h
    rename_i hallowed
    obtain ⟨hoptions, -, hmultiple, hsingle⟩ := checkChoices_ok h
    have hsplit : existing ++ choice :: choices = (existing ++ [choice]) ++ choices := by simp
    refine ⟨?_, fun _ => howner, ?_, ?_⟩
    · rintro other (_ | ⟨_, hother⟩)
      · exact ⟨by omega, by omega⟩
      · exact hoptions other hother
    · intro hmany hnodup
      rw [hsplit]
      refine hmultiple hmany ?_
      have hfresh : choice ∉ existing := by
        intro hmem
        simp [hmany, hmem] at hallowed
      exact List.nodup_append.mpr ⟨hnodup, List.nodup_singleton _, by
        rintro other hother _ hsame rfl
        exact hfresh (List.mem_singleton.mp hsame ▸ hother)⟩
    · intro hone _
      have hnone : existing = [] := by
        by_contra hsome
        simp [hone, hsome] at hallowed
      subst hnone
      by_cases hrest : choices = []
      · subst hrest
        simp
      · -- the second choice would meet the first one
        have hlength := hsingle hone hrest
        have hpositive := List.length_pos_iff.mpr hrest
        simp only [List.nil_append, List.length_append, List.length_singleton] at hlength
        omega

theorem nodup_choicesOf (h : Exact ballots) (accountId : ℤ) : (ballots.choicesOf accountId).Nodup := by
  have hpairs := h.once.sublist (List.Sublist.map (fun vote : PollVote => (vote.accountId, vote.choice))
    (List.filter_sublist (p := fun vote : PollVote => decide (vote.accountId = accountId))))
  have hby : ∀ vote ∈ ballots.votesOf accountId, vote.accountId = accountId :=
    fun vote hvote => (Ballots.mem_votesOf.mp hvote).2
  have hpairs : ((ballots.votesOf accountId).map fun vote => (vote.accountId, vote.choice)).Nodup := hpairs
  rw [nodup_pairs hby] at hpairs
  exact List.Nodup.of_map _ hpairs

/-- `vote_poll` inserts what the poll allows. -/
theorem admissible_ballot {choices : List ℤ} (hexact : Exact ballots) (hne : choices ≠ [])
    (h : checkChoices accountId ballots.poll (ballots.choicesOf accountId) choices = .ok ()) :
    Admissible ballots accountId none choices := by
  obtain ⟨hoptions, howner, hmultiple, hsingle⟩ := checkChoices_ok h
  refine ⟨hoptions, howner hne, ?_, fun hone => hsingle hone hne, fun huri => by cases huri⟩
  cases hmany : ballots.poll.multiple with
  | true => exact hmultiple hmany (nodup_choicesOf hexact accountId)
  | false =>
    have hlength := hsingle hmany hne
    have hpositive := List.length_pos_iff.mpr hne
    obtain ⟨choice, hchoice⟩ := List.length_eq_one_iff.mp (show
      (ballots.choicesOf accountId ++ choices).length = 1 by
        rw [List.length_append] at hlength ⊢
        omega)
    rw [hchoice]
    exact List.nodup_singleton _

/-- `apply_remote_poll_vote` inserts what the poll allows. The owner of a local poll is no remote
    account. -/
theorem admissible_activity {activity : VoteActivity} {choice : ℤ} (hexact : Exact ballots)
    (hoption : IsOption ballots.poll choice) (howner : activity.accountId ≠ ballots.poll.accountId)
    (hnew : ∀ vote ∈ ballots.votesOf activity.accountId, vote.uri ≠ some activity.voteUri)
    (hallowed : ¬((!ballots.poll.multiple && !(ballots.choicesOf activity.accountId).isEmpty) ||
      (ballots.choicesOf activity.accountId).contains choice) = true) :
    Admissible ballots activity.accountId (some activity.voteUri) [choice] := by
  refine ⟨?_, howner, ?_, ?_, fun _ => ⟨le_rfl, hnew⟩⟩
  · intro other hother
    exact List.mem_singleton.mp hother ▸ hoption
  · have hfresh : choice ∉ ballots.choicesOf activity.accountId := by
      intro hmem
      simp [hmem] at hallowed
    exact List.nodup_append.mpr ⟨nodup_choicesOf hexact _, List.nodup_singleton _, by
      rintro other hother _ hsame rfl
      exact hfresh (List.mem_singleton.mp hsame ▸ hother)⟩
  · intro hone
    have hnone : ballots.choicesOf activity.accountId = [] := by
      by_contra hsome
      simp [hone, hsome] at hallowed
    rw [hnone]
    exact le_rfl

theorem existingChoices_eq {poll : Poll} (hnothing : σ.writes t = [])
    (hget : σ.ballots.get poll.id = some ballots) :
    existingChoices σ t accountId poll = ballots.choicesOf accountId := by
  rw [existingChoices, view_of_nothing hnothing, hget]

theorem readChoices_keeps {now : ℤ} (h : Invariant isLocal σ)
    (hstep : readChoices σ t now = some (σ', response)) : Keeps isLocal σ σ' response := by
  have hstage := (h.txns t).stage
  unfold readChoices at hstep
  split at hstep
  · rename_i ballot poll hballot
    rw [hballot] at hstage
    obtain ⟨hnothing, hchoices, haccount, hpoll, ballots, hget, rfl, -⟩ := hstage
    have hexisting : existingChoices σ t ballot.accountId ballots.poll =
        ballots.choicesOf ballot.accountId := existingChoices_eq hnothing hget
    dsimp only at hstep
    rw [hexisting] at hstep
    split at hstep
    · obtain ⟨rfl, rfl⟩ := Prod.mk.inj (Option.some.inj hstep)
      exact keeps_rollback h
    split at hstep <;> obtain ⟨rfl, rfl⟩ := Prod.mk.inj (Option.some.inj hstep)
    · exact keeps_rollback h
    · rename_i hchecked
      have hgood := h.good _ ballots hget
      refine keeps_continued (h.setStage ⟨haccount, hpoll, ballots, hget, rfl, [], ?_⟩) rfl
      exact
        { writes := hnothing
          cast := fun _ hvote => by cases hvote
          tallies := rfl
          firstBallot := rfl
          votes := (Nat.zero_add _).symm
          some_vote := List.length_pos_iff.mpr hchoices
          few := by simpa using hgood.few
          admissible := fun hisLocal => admissible_ballot (hgood.exact hisLocal) hchoices hchecked }
  · rename_i activity poll choice hactivity
    rw [hactivity] at hstage
    obtain ⟨hnothing, hremote, hoption, haccount, hpoll, ballots, hget, rfl, hnew⟩ := hstage
    have hexisting : existingChoices σ t activity.accountId ballots.poll =
        ballots.choicesOf activity.accountId := existingChoices_eq hnothing hget
    dsimp only at hstep
    rw [hexisting] at hstep
    split at hstep
    · obtain ⟨rfl, rfl⟩ := Prod.mk.inj (Option.some.inj hstep)
      exact keeps_commit h hnothing
    split at hstep <;> obtain ⟨rfl, rfl⟩ := Prod.mk.inj (Option.some.inj hstep)
    · exact keeps_commit h hnothing
    · rename_i hallowed
      have hgood := h.good _ ballots hget
      refine keeps_continued (h.setStage ⟨haccount, hpoll, ballots, hget, rfl, [], ?_⟩) rfl
      exact
        { writes := hnothing
          cast := fun _ hvote => by cases hvote
          tallies := rfl
          firstBallot := rfl
          votes := rfl
          some_vote := Nat.one_pos
          few := by simpa using hgood.few
          admissible := fun hisLocal => by
            have howner : activity.accountId ≠ ballots.poll.accountId := by
              intro hsame
              rw [← hsame, hremote] at hisLocal
              cases hisLocal
            exact admissible_activity (hgood.exact hisLocal) hoption howner hnew hallowed }
  · cases hstep

/-- What a transaction sees of the poll after its insertions. -/
theorem written_inserts {inserted : List PollVote} {accountId : ℤ} {uri : Option String} :
    ∀ {ballots : Ballots}, CastBy ballots.poll.id accountId uri inserted →
      ∃ after, written (inserted.map .insertVote) ballots = some after ∧ after.poll = ballots.poll ∧
        after.votes = ballots.votes ++ inserted := by
  induction inserted with
  | nil => exact fun {ballots} _ => ⟨ballots, rfl, rfl, (List.append_nil _).symm⟩
  | cons vote inserted ih =>
    intro ballots hcast
    obtain ⟨hpoll, -, -⟩ := hcast vote List.mem_cons_self
    have hrest : CastBy (ballots.insert vote).poll.id accountId uri inserted := by
      rw [Ballots.poll_insert]
      exact fun other hother => hcast other (List.mem_cons_of_mem _ hother)
    obtain ⟨after, hafter, hrow, hvotes⟩ := ih hrest
    refine ⟨after, ?_, hrow.trans (Ballots.poll_insert _ _), ?_⟩
    · rw [List.map_cons, written, Write.onRow, Option.bind_some]
      exact hafter
    · rw [hvotes, Ballots.votes_insert hpoll, List.append_assoc, List.singleton_append]

theorem insertVote_keeps (h : Invariant isLocal σ) (hstep : insertVote σ t = some (σ', response)) :
    Keeps isLocal σ σ' response := by
  have hstage := (h.txns t).stage
  rw [insertVote] at hstep
  split at hstep
  · rename_i casting hcasting
    rw [hcasting] at hstage
    obtain ⟨haccount, hpoll, ballots, hget, hrow, inserted, hcasts⟩ := hstage
    split at hstep
    · cases hstep
    rename_i choice remaining hremaining
    split at hstep <;> obtain ⟨rfl, rfl⟩ := Prod.mk.inj (Option.some.inj hstep)
    · rename_i hlimit
      refine keeps_continued (h.to_stage (own_nextVoteId.trans own_write) (by
        show σ.nextVoteId + 1 ≤ 2 ^ 63
        omega) ?_ ?_) rfl
      · have hwithin : Within { σ with nextVoteId := σ.nextVoteId + 1 } t :=
          (h.txns t).toWithin.of_own rfl (fun _ => id) fun _ => id
        refine hwithin.write ?_ ?_
        · rintro id rfl
          exact hpoll
        · rintro accountId rfl
          exact haccount
      · refine ⟨haccount, hpoll, ballots, hget, hrow,
          inserted ++ [⟨σ.nextVoteId, casting.accountId, casting.poll.id, choice, casting.uri⟩], ?_⟩
        have hwrites : (({ σ with nextVoteId := σ.nextVoteId + 1 } : State).write t (.insertVote
            ⟨σ.nextVoteId, casting.accountId, casting.poll.id, choice, casting.uri⟩)).writes t =
              σ.writes t ++ [.insertVote
                ⟨σ.nextVoteId, casting.accountId, casting.poll.id, choice, casting.uri⟩] :=
          Function.update_self ..
        exact
          { writes := by rw [hwrites, hcasts.writes, List.map_append, List.map_singleton]
            cast := hcasts.cast.append ⟨rfl, rfl, rfl⟩
            tallies := by
              rw [List.map_append, List.map_singleton, List.foldl_concat, ← hcasts.tallies]
            firstBallot := hcasts.firstBallot
            votes := by
              have hvotes := hcasts.votes
              rw [hremaining, List.length_cons] at hvotes
              rw [List.length_append, List.length_singleton]
              dsimp only
              omega
            some_vote := hcasts.some_vote
            few := by
              have hfew := hcasts.few
              show (ballots.votes.length : ℤ) + (inserted ++ [_]).length < σ.nextVoteId + 1
              rw [List.length_append, List.length_singleton]
              push_cast
              omega
            admissible := fun hisLocal => by
              have hadmissible := hcasts.admissible hisLocal
              rw [hremaining] at hadmissible
              rw [List.map_append, List.map_singleton, List.append_assoc, List.singleton_append]
              exact hadmissible }
    · exact keeps_rollback h
  · cases hstep

theorem updatePoll_keeps {now : ℤ} (h : Invariant isLocal σ)
    (hstep : updatePoll σ t now = some (σ', response)) : Keeps isLocal σ σ' response := by
  have hstage := (h.txns t).stage
  rw [updatePoll] at hstep
  split at hstep
  · rename_i casting hcasting
    rw [hcasting] at hstage
    obtain ⟨haccount, hpoll, ballots, hget, hrow, inserted, hcasts⟩ := hstage
    split at hstep
    · rename_i hnone
      obtain ⟨rfl, rfl⟩ := Prod.mk.inj (Option.some.inj hstep)
      rw [List.isEmpty_iff] at hnone
      have hvotes := hcasts.votes
      rw [hnone, List.length_nil, Nat.add_zero] at hvotes
      have hcast : CastBy ballots.poll.id casting.accountId casting.uri inserted := by
        rw [hrow]
        exact hcasts.cast
      obtain ⟨after, hafter, hafterRow, hafterVotes⟩ := written_inserts hcast
      refine keeps_continued (h.write ?_ (fun _ hconcerns => hconcerns.elim) fun p before hview => ?_) rfl
      · rintro id rfl
        exact hpoll
      rw [get_view_write] at hview
      obtain ⟨seen, hseen, hwritten⟩ := Option.bind_eq_some_iff.mp hview
      have hkey : pollId seen = p := Table.key_of_get hseen
      rw [Write.onRow] at hwritten
      split at hwritten
      · rename_i hid
        obtain rfl := Option.some.inj hwritten
        -- the poll of the ballot
        have hp : p = casting.poll.id := hkey.symm.trans hid
        rw [hp, get_view, hget, Option.bind_some, hcasts.writes, hafter] at hseen
        obtain rfl := Option.some.inj hseen
        have hfew : ((ballots.votes ++ inserted).length : ℤ) < σ.nextVoteId := by
          rw [List.length_append]
          push_cast
          exact hcasts.few
        refine ⟨?_, fun hisLocal => ?_⟩
        · show (after.votes.length : ℤ) < σ.nextVoteId
          rw [hafterVotes]
          exact hfew
        · have hisLocal : isLocal ballots.poll.accountId = true := by
            rw [← hafterRow]
            exact hisLocal
          have hadmissible := hcasts.admissible hisLocal
          rw [hnone, List.append_nil] at hadmissible
          have hsome : inserted ≠ [] := by
            rintro rfl
            have hpositive := hcasts.some_vote
            rw [hvotes] at hpositive
            exact absurd hpositive (Nat.lt_irrefl 0)
          rw [hcasts.tallies, hvotes, hcasts.firstBallot, ← hrow]
          have hlimit := lt_of_lt_of_le hcasts.few h.limit.2
          exact exact_cast ((h.good _ ballots hget).exact hisLocal) hadmissible hcast hsome hlimit
            hafterRow hafterVotes
      · rename_i hid
        obtain rfl := Option.some.inj hwritten
        have hother : (σ.view t).get p = σ.ballots.get p := by
          refine view_of_not_touches fun write hwrite htouches => hid ?_
          rw [hcasts.writes] at hwrite
          obtain ⟨vote, hvote, rfl⟩ := List.mem_map.mp hwrite
          have hvotePoll : vote.pollId = p := htouches
          exact hkey.trans (hvotePoll.symm.trans (hcasts.cast vote hvote).1)
        rw [hother] at hseen
        exact (h.good p seen hseen).mono le_rfl
    · cases hstep
  · cases hstep

/-! ### Removals -/

theorem removePollData_keeps (h : Invariant isLocal σ)
    (hstep : removePollData σ t accountId = some (σ', response)) : Keeps isLocal σ σ' response := by
  have hstage := (h.txns t).stage
  have hclean : σ.stages t = .idle ∨ σ.stages t = .removed → Clean isLocal σ t := by
    rintro (hidle | hremoved)
    · rw [hidle] at hstage
      exact clean_of_nothing h.good hstage
    · rw [hremoved] at hstage
      exact hstage
  have hstart : (σ.stages t = .idle ∨ σ.stages t = .removed) ∧ State.Free t (σ.accountLock accountId) ∧
      σ' = (σ.holdAccount t accountId).setStage t (.removing accountId) ∧ response = .continued := by
    rw [removePollData] at hstep
    split at hstep
    · rename_i hidle
      split at hstep
      · rename_i hfree
        obtain ⟨rfl, rfl⟩ := Prod.mk.inj (Option.some.inj hstep)
        exact ⟨.inl hidle, hfree, rfl, rfl⟩
      · cases hstep
    · rename_i hremoved
      split at hstep
      · rename_i hfree
        obtain ⟨rfl, rfl⟩ := Prod.mk.inj (Option.some.inj hstep)
        exact ⟨.inr hremoved, hfree, rfl, rfl⟩
      · cases hstep
    · cases hstep
  obtain ⟨hstages, hfree, rfl, rfl⟩ := hstart
  exact keeps_continued (h.holdAccount hfree
    ⟨fun p ballots hview => (hclean hstages p ballots hview).mono le_rfl, accountLock_holdAccount _⟩) rfl

theorem selectOwn_keeps {statusIds protectedStatusIds : List ℤ} (h : Invariant isLocal σ)
    (hstep : selectOwn σ t statusIds protectedStatusIds = some (σ', response)) :
    Keeps isLocal σ σ' response := by
  have hstage := (h.txns t).stage
  rw [selectOwn] at hstep
  split at hstep
  · rename_i accountId hremoving
    rw [hremoving] at hstage
    obtain ⟨rfl, rfl⟩ := Prod.mk.inj (Option.some.inj hstep)
    exact keeps_continued (h.setStage ⟨hstage.1, hstage.2, fun _ hid => by cases hid⟩) rfl
  · cases hstep

theorem lockOwn_keeps (h : Invariant isLocal σ) (hstep : lockOwn σ t = some (σ', response)) :
    Keeps isLocal σ σ' response := by
  have hstage := (h.txns t).stage
  rw [lockOwn] at hstep
  split at hstep
  · rename_i accountId id candidates own hlocking
    rw [hlocking] at hstage
    obtain ⟨hclean, haccount, hholds⟩ := hstage
    split at hstep
    · rename_i hfree
      split at hstep <;> obtain ⟨rfl, rfl⟩ := Prod.mk.inj (Option.some.inj hstep)
      · exact keeps_continued (h.setStage ⟨hclean, haccount, hholds⟩) rfl
      · rename_i ballots hview
        refine keeps_continued (h.holdPoll hfree hview
          ⟨fun p ballots hview => (hclean p ballots hview).mono le_rfl, haccount, ?_⟩) rfl
        intro other hother
        rcases List.mem_append.mp hother with hother | hother
        · exact pollLock_of_holdPoll (hholds other hother)
        · rw [List.mem_singleton.mp hother]
          exact pollLock_holdPoll id
    · cases hstep
  · cases hstep

/-- The votes of an account, poll by poll. -/
theorem draining_votesByPoll (h : Invariant isLocal σ) (hclean : Clean isLocal σ t)
    (haccount : σ.accountLock accountId = some t) :
    Draining isLocal σ t accountId (votesByPoll σ t accountId) := by
  have hdone : ∀ p ballots, (σ.view t).get p = some ballots →
      p ∉ (votesByPoll σ t accountId).map Prod.fst → ballots.choicesOf accountId = [] := by
    intro p ballots hview hnot
    by_contra hvoted
    have hkey : pollId ballots = p := Table.key_of_get hview
    refine hnot (List.mem_map.mpr ⟨(p, ballots.choicesOf accountId), ?_, rfl⟩)
    refine List.mem_filterMap.mpr ⟨ballots, Table.mem_of_get hview, ?_⟩
    rw [if_neg (by simpa using hvoted), ← hkey]
    rfl
  refine ⟨haccount, fun p ballots hview => (hclean p ballots hview).few, ?_, ?_, ?_, ?_⟩
  · intro entry hentry
    obtain ⟨ballots, hballots, hentry⟩ := List.mem_filterMap.mp hentry
    split at hentry
    · cases hentry
    obtain rfl := Option.some.inj hentry
    have hview := Table.mem_iff_get.mp hballots
    rw [get_view] at hview
    obtain ⟨before, hbefore, -⟩ := Option.bind_eq_some_iff.mp hview
    exact h.known _ before hbefore
  · intro p ballots choices hview hentry hisLocal
    obtain ⟨other, hother, hentry⟩ := List.mem_filterMap.mp hentry
    split at hentry
    · cases hentry
    rename_i hvoted
    obtain ⟨rfl, rfl⟩ := Prod.mk.inj (Option.some.inj hentry)
    have hsame : (σ.view t).get other.poll.id = some other := Table.mem_iff_get.mp hother
    rw [hsame] at hview
    obtain rfl := Option.some.inj hview
    exact ⟨(hclean _ other hsame).exact hisLocal, rfl, by simpa using hvoted⟩
  · intro p ballots hview hnot hvoted
    exact absurd (hdone p ballots hview hnot) hvoted
  · intro p ballots hview hnot hisLocal
    rw [Ballots.without_eq_self (hdone p ballots hview hnot)]
    exact (hclean p ballots hview).exact hisLocal

theorem readVotes_keeps (h : Invariant isLocal σ) (hstep : readVotes σ t = some (σ', response)) :
    Keeps isLocal σ σ' response := by
  have hstage := (h.txns t).stage
  rw [readVotes] at hstep
  split at hstep
  · rename_i accountId own hlocking
    rw [hlocking] at hstage
    obtain ⟨hclean, haccount, hholds⟩ := hstage
    obtain ⟨rfl, rfl⟩ := Prod.mk.inj (Option.some.inj hstep)
    exact keeps_continued (h.setStage ⟨hholds, draining_votesByPoll h hclean haccount⟩) rfl
  · cases hstep

theorem mem_except {remaining : List (ℤ × List ℤ)} {id : ℤ} {entry : ℤ × List ℤ} :
    entry ∈ except remaining id ↔ entry ∈ remaining ∧ entry.1 ≠ id := by
  simp [except]

theorem not_mem_keys_except {remaining : List (ℤ × List ℤ)} {id : ℤ}
    (h : p ∉ (except remaining id).map Prod.fst) (hne : p ≠ id) : p ∉ remaining.map Prod.fst := by
  intro hmem
  obtain ⟨entry, hentry, rfl⟩ := List.mem_map.mp hmem
  exact h (List.mem_map_of_mem (mem_except.mpr ⟨hentry, hne⟩))

/-- A poll that is gone has nothing to count. -/
theorem Draining.skip {remaining : List (ℤ × List ℤ)} {id : ℤ}
    (h : Draining isLocal σ t accountId remaining) (hgone : (σ.view t).get id = none) :
    Draining isLocal σ t accountId (except remaining id) where
  account := h.account
  few := h.few
  known entry hentry := h.known entry (mem_except.mp hentry).1
  waiting p ballots choices hview hentry hisLocal :=
    h.waiting p ballots choices hview (mem_except.mp hentry).1 hisLocal
  locked p ballots hview hnot hvoted := by
    have hne : p ≠ id := by
      rintro rfl
      rw [hgone] at hview
      cases hview
    exact h.locked p ballots hview (not_mem_keys_except hnot hne) hvoted
  exact p ballots hview hnot hisLocal := by
    have hne : p ≠ id := by
      rintro rfl
      rw [hgone] at hview
      cases hview
    exact h.exact p ballots hview (not_mem_keys_except hnot hne) hisLocal

theorem lockVoted_keeps {id : ℤ} (h : Invariant isLocal σ)
    (hstep : lockVoted σ t id = some (σ', response)) : Keeps isLocal σ σ' response := by
  have hstage := (h.txns t).stage
  rw [lockVoted] at hstep
  split at hstep
  · rename_i accountId own remaining hdiscounting
    rw [hdiscounting] at hstage
    obtain ⟨hholds, hdraining⟩ := hstage
    split at hstep
    · cases hstep
    rename_i key choices hfind
    split at hstep
    · rename_i hfree
      split at hstep
      · rename_i hgone
        obtain ⟨rfl, rfl⟩ := Prod.mk.inj (Option.some.inj hstep)
        exact keeps_continued (h.setStage ⟨hholds, hdraining.skip hgone⟩) rfl
      · rename_i ballots hview
        obtain ⟨rfl, rfl⟩ := Prod.mk.inj (Option.some.inj hstep)
        have hkey : pollId ballots = id := Table.key_of_get hview
        rw [pollId] at hkey
        have hentry : key = id := by simpa using List.find?_some hfind
        refine keeps_continued (h.holdPoll hfree hview ⟨?_, ?_, ?_, ?_, ballots, ?_, rfl⟩) rfl
        · exact fun other hother => pollLock_of_holdPoll (hholds other hother)
        · exact
            { account := hdraining.account
              few := hdraining.few
              known := hdraining.known
              waiting := hdraining.waiting
              locked := fun p ballots hview hnot hvoted =>
                pollLock_of_holdPoll (hdraining.locked p ballots hview hnot hvoted)
              exact := hdraining.exact }
        · rw [hkey, ← hentry]
          exact List.mem_of_find?_eq_some hfind
        · rw [hkey]
          exact pollLock_holdPoll id
        · rw [hkey]
          exact hview
    · cases hstep
  · cases hstep

/-- The votes of the account are taken from the counts of one poll. -/
theorem Draining.discount {remaining : List (ℤ × List ℤ)} {choices : List ℤ} {now : ℤ}
    (h : Draining isLocal σ t accountId remaining) (hentry : (ballots.poll.id, choices) ∈ remaining)
    (hlock : σ.pollLock ballots.poll.id = some t)
    (hview : (σ.view t).get ballots.poll.id = some ballots) :
    Draining isLocal
      (σ.write t (.setCounts ballots.poll.id (ballots.poll.discounted choices) 0 now)) t accountId
      (except remaining ballots.poll.id) := by
  -- every poll but this one is seen as before
  have hrow : ∀ p after,
      ((σ.write t (.setCounts ballots.poll.id (ballots.poll.discounted choices) 0 now)).view t).get p =
        some after →
      (p = ballots.poll.id ∧ after = ballots.setCounts (ballots.poll.discounted choices)
        (ballots.poll.lockVersion + 0) now) ∨
      (p ≠ ballots.poll.id ∧ (σ.view t).get p = some after) := by
    intro p after hafter
    rw [get_view_write] at hafter
    obtain ⟨seen, hseen, hwritten⟩ := Option.bind_eq_some_iff.mp hafter
    have hkey : pollId seen = p := Table.key_of_get hseen
    rw [Write.onRow] at hwritten
    split at hwritten
    · rename_i hid
      obtain rfl := Option.some.inj hwritten
      have hp : p = ballots.poll.id := hkey.symm.trans hid
      rw [hp, hview] at hseen
      obtain rfl := Option.some.inj hseen
      exact .inl ⟨hp, rfl⟩
    · rename_i hid
      obtain rfl := Option.some.inj hwritten
      exact .inr ⟨fun hp => hid (hkey.trans hp), hseen⟩
  refine ⟨h.account, ?_, fun entry hentry => h.known entry (mem_except.mp hentry).1, ?_, ?_, ?_⟩
  · intro p after hafter
    rcases hrow p after hafter with ⟨-, rfl⟩ | ⟨-, hseen⟩
    · exact h.few _ ballots hview
    · exact h.few p after hseen
  · intro p after entry hafter hmem hisLocal
    obtain ⟨hmem, hne⟩ := mem_except.mp hmem
    rcases hrow p after hafter with ⟨rfl, -⟩ | ⟨-, hseen⟩
    · exact absurd rfl hne
    · exact h.waiting p after entry hseen hmem hisLocal
  · intro p after hafter hnot hvoted
    rcases hrow p after hafter with ⟨rfl, -⟩ | ⟨hne, hseen⟩
    · exact hlock
    · exact h.locked p after hseen (not_mem_keys_except hnot hne) hvoted
  · intro p after hafter hnot hisLocal
    rcases hrow p after hafter with ⟨rfl, rfl⟩ | ⟨hne, hseen⟩
    · obtain ⟨hexact, hchoices, hvoted⟩ := h.waiting _ ballots choices hview hentry hisLocal
      obtain rfl := hchoices
      exact exact_without hexact hvoted rfl rfl
    · exact h.exact p after hseen (not_mem_keys_except hnot hne) hisLocal

theorem discountPoll_keeps {now : ℤ} (h : Invariant isLocal σ)
    (hstep : discountPoll σ t now = some (σ', response)) : Keeps isLocal σ σ' response := by
  have hstage := (h.txns t).stage
  rw [discountPoll] at hstep
  split at hstep
  · rename_i accountId own remaining poll choices hdiscounting
    rw [hdiscounting] at hstage
    obtain ⟨hholds, hdraining, hentry, hlock, ballots, hview, rfl⟩ := hstage
    obtain ⟨rfl, rfl⟩ := Prod.mk.inj (Option.some.inj hstep)
    refine keeps_continued (h.write ?_ (fun _ hconcerns => hconcerns.elim)
      ⟨hholds, hdraining.discount hentry hlock hview⟩) rfl
    rintro id rfl
    exact hlock
  · cases hstep

theorem deleteVotes_keeps (h : Invariant isLocal σ) (hstep : deleteVotes σ t = some (σ', response)) :
    Keeps isLocal σ σ' response := by
  have hstage := (h.txns t).stage
  rw [deleteVotes] at hstep
  split at hstep
  · rename_i accountId own hdiscounting
    rw [hdiscounting] at hstage
    obtain ⟨hholds, hdraining⟩ := hstage
    obtain ⟨rfl, rfl⟩ := Prod.mk.inj (Option.some.inj hstep)
    have hmem : ∀ vote, vote ∈ ((σ.view t).rows.flatMap fun ballots => ballots.votesOf accountId) ↔
        ∃ ballots ∈ (σ.view t).rows, vote ∈ ballots.votes ∧ vote.accountId = accountId := by
      intro vote
      rw [List.mem_flatMap]
      simp only [Ballots.mem_votesOf]
    refine keeps_continued (h.write ?_ ?_ ⟨fun p after hview => ?_, hholds⟩) rfl
    · rintro id ⟨vote, hvote, rfl⟩
      obtain ⟨ballots, hballots, hvote, haccount⟩ := (hmem vote).mp hvote
      have hview : (σ.view t).get ballots.poll.id = some ballots := Table.mem_iff_get.mp hballots
      rw [ballots.votes_of_poll vote hvote]
      refine hdraining.locked _ ballots hview (fun hnone => by cases hnone) fun hnone => ?_
      have hof := List.map_eq_nil_iff.mp hnone
      exact List.not_mem_nil (hof ▸ Ballots.mem_votesOf.mpr ⟨hvote, haccount⟩)
    · rintro other ⟨vote, hvote, rfl⟩
      obtain ⟨ballots, -, -, haccount⟩ := (hmem vote).mp hvote
      rw [haccount]
      exact hdraining.account
    · rw [get_view_write] at hview
      obtain ⟨seen, hseen, hwritten⟩ := Option.bind_eq_some_iff.mp hview
      obtain rfl := Option.some.inj hwritten
      have hwithout : (seen.keep fun vote => decide
          (vote ∉ (σ.view t).rows.flatMap fun ballots => ballots.votesOf accountId)) =
            seen.without accountId := by
        refine Ballots.ext_of rfl (List.filter_congr fun vote hvote => decide_eq_decide.mpr ?_)
        refine not_congr ((hmem vote).trans ⟨?_, fun haccount => ?_⟩)
        · rintro ⟨-, -, -, haccount⟩
          exact haccount
        · exact ⟨seen, Table.mem_of_get hseen, hvote, haccount⟩
      rw [hwithout]
      refine ⟨?_, fun hisLocal => hdraining.exact p seen hseen (fun hnone => by cases hnone) hisLocal⟩
      have hfew := hdraining.few p seen hseen
      have hlength : (seen.without accountId).votes.length ≤ seen.votes.length :=
        List.length_filter_le _ _
      show ((seen.without accountId).votes.length : ℤ) < σ.nextVoteId
      omega
  · cases hstep

theorem deletePolls_keeps (h : Invariant isLocal σ) (hstep : deletePolls σ t = some (σ', response)) :
    Keeps isLocal σ σ' response := by
  have hstage := (h.txns t).stage
  rw [deletePolls] at hstep
  split at hstep
  · rename_i own hdeleted
    rw [hdeleted] at hstage
    obtain ⟨hclean, hholds⟩ := hstage
    obtain ⟨rfl, rfl⟩ := Prod.mk.inj (Option.some.inj hstep)
    refine keeps_continued (h.write (fun id hid => hholds id hid) (fun _ hconcerns => hconcerns.elim)
      fun p after hview => ?_) rfl
    rw [get_view_write] at hview
    obtain ⟨seen, hseen, hwritten⟩ := Option.bind_eq_some_iff.mp hview
    rw [Write.onRow] at hwritten
    split at hwritten
    · cases hwritten
    · obtain rfl := Option.some.inj hwritten
      exact (hclean p seen hseen).mono le_rfl
  · cases hstep

theorem commitTransaction_keeps (h : Invariant isLocal σ)
    (hstep : commitTransaction σ t = some (σ', response)) : Keeps isLocal σ σ' response := by
  have hstage := (h.txns t).stage
  rw [commitTransaction] at hstep
  split at hstep
  · rename_i hcounted
    rw [hcounted] at hstage
    obtain ⟨rfl, rfl⟩ := Prod.mk.inj (Option.some.inj hstep)
    exact ⟨h.commit hstage, fun hnot => absurd rfl hnot⟩
  · rename_i hremoved
    rw [hremoved] at hstage
    obtain ⟨rfl, rfl⟩ := Prod.mk.inj (Option.some.inj hstep)
    exact ⟨h.commit hstage, fun hnot => absurd rfl hnot⟩
  · cases hstep

/-! ### What happens without a transaction -/

theorem Invariant.keeps (h : Invariant isLocal σ) (houtside : Outside isLocal σ σ') :
    Keeps isLocal σ σ' .committed :=
  ⟨h.outside houtside, fun hnot => absurd rfl hnot⟩

theorem insertPoll_outside {poll : Poll} (h : Invariant isLocal σ)
    (hexact : isLocal poll.accountId = true → Exact (Ballots.empty poll))
    (hstep : insertPoll σ poll = some (σ', response)) : Outside isLocal σ σ' ∧ response = .committed := by
  rw [insertPoll] at hstep
  split at hstep
  · cases hstep
  rename_i hnew
  obtain ⟨table, hinsert, hstep⟩ := Option.map_eq_some_iff.mp hstep
  obtain ⟨rfl, rfl⟩ := Prod.mk.inj hstep
  have hget : ∀ id, table.get id = if poll.id = id then some (Ballots.empty poll) else σ.ballots.get id :=
    Table.get_insert hinsert
  refine ⟨⟨rfl, rfl, rfl, rfl, rfl, fun id hid => List.mem_cons_of_mem _ hid, ?_, ?_, ?_⟩, rfl⟩
  · intro id after hafter
    have hafter : table.get id = some after := hafter
    rw [hget] at hafter
    split at hafter
    · rename_i hid
      exact hid ▸ List.mem_cons_self
    · exact List.mem_cons_of_mem _ (h.known id after hafter)
  · intro id t hlock
    show table.get id = σ.ballots.get id
    rw [hget, if_neg]
    rintro rfl
    exact hnew (h.lockedKnown _ t hlock)
  · intro id after hafter
    have hafter : table.get id = some after := hafter
    rw [hget] at hafter
    split at hafter
    · rename_i hid
      obtain rfl := Option.some.inj hafter
      exact .inl ⟨hid ▸ hnew, rfl, hexact⟩
    · exact .inr ⟨after, hafter, rfl, List.Sublist.refl _, fun _ => ⟨rfl, fun hexact => hexact⟩⟩

theorem createPoll_keeps {poll : NewPoll} (h : Invariant isLocal σ)
    (hstep : createPoll σ poll = some (σ', response)) : Keeps isLocal σ σ' response := by
  obtain ⟨houtside, rfl⟩ := insertPoll_outside h (fun _ => exact_empty rfl rfl rfl) hstep
  exact h.keeps houtside

/-- The row of a poll that nobody has locked changes, or goes. -/
theorem outside_of_unlocked (h : Invariant isLocal σ) {id : ℤ} {table : Table pollId}
    (hlock : σ.pollLock id = none)
    (hother : ∀ other, other ≠ id → table.get other = σ.ballots.get other)
    (hrow : ∀ after, table.get id = some after → ∃ before, σ.ballots.get id = some before ∧
      after.poll.accountId = before.poll.accountId ∧ after.votes.Sublist before.votes ∧
        (isLocal before.poll.accountId = true →
          after.votes = before.votes ∧ (Exact before → Exact after))) :
    Outside isLocal σ { σ with ballots := table } where
  nextVoteId := rfl
  stages := rfl
  writes := rfl
  accountLock := rfl
  pollLock := rfl
  pollIds _ hid := hid
  known other after hafter := by
    have hafter : table.get other = some after := hafter
    by_cases hid : other = id
    · subst hid
      obtain ⟨before, hbefore, -⟩ := hrow after hafter
      exact h.known _ before hbefore
    · rw [hother other hid] at hafter
      exact h.known other after hafter
  locked other t hheld := by
    refine hother other ?_
    rintro rfl
    rw [hlock] at hheld
    cases hheld
  rows other after hafter := by
    have hafter : table.get other = some after := hafter
    by_cases hid : other = id
    · subst hid
      exact .inr (hrow after hafter)
    · rw [hother other hid] at hafter
      exact .inr ⟨after, hafter, rfl, List.Sublist.refl _, fun _ => ⟨rfl, fun hexact => hexact⟩⟩

theorem get_modify_of_ne {id other : ℤ} {f : Ballots → Ballots}
    (hf : ∀ ballots, pollId (f ballots) = pollId ballots) (hne : other ≠ id) :
    (σ.ballots.modify id f hf).get other = σ.ballots.get other := by
  rw [Table.get_modify]
  simp [hne]

theorem get_modify_self {id : ℤ} {f : Ballots → Ballots}
    (hf : ∀ ballots, pollId (f ballots) = pollId ballots)
    (hget : (σ.ballots.modify id f hf).get id = some ballots) :
    ∃ before, σ.ballots.get id = some before ∧ ballots = f before := by
  rw [Table.get_modify] at hget
  obtain ⟨before, hbefore, hafter⟩ := Option.map_eq_some_iff.mp hget
  rw [if_pos rfl] at hafter
  exact ⟨before, hbefore, hafter.symm⟩

theorem upsertRemotePoll_keeps {poll : Poll} {kept : List ℤ} (h : Invariant isLocal σ)
    (hstep : upsertRemotePoll isLocal σ poll kept = some (σ', response)) :
    Keeps isLocal σ σ' response := by
  rw [upsertRemotePoll] at hstep
  split at hstep
  · cases hstep
  rename_i hremote
  split at hstep
  · obtain ⟨houtside, rfl⟩ :=
      insertPoll_outside h (fun hisLocal => absurd hisLocal hremote) hstep
    exact h.keeps houtside
  · rename_i current hcurrent
    split at hstep
    · rename_i hallowed
      obtain ⟨hlock, howner⟩ := hallowed
      obtain ⟨rfl, rfl⟩ := Prod.mk.inj (Option.some.inj hstep)
      refine h.keeps (outside_of_unlocked h hlock (fun other => get_modify_of_ne _) fun after hafter => ?_)
      obtain ⟨before, hbefore, rfl⟩ := get_modify_self _ hafter
      obtain rfl := Option.some.inj (hcurrent.symm.trans hbefore)
      refine ⟨current, hcurrent, howner.symm, List.filter_sublist, fun hisLocal => ?_⟩
      rw [howner] at hisLocal
      exact absurd hisLocal hremote
    · cases hstep

theorem touchPoll_keeps {id : ℤ} {expiresAt : Option ℤ} {lockVersion updatedAt : ℤ}
    (h : Invariant isLocal σ)
    (hstep : touchPoll σ id expiresAt lockVersion updatedAt = some (σ', response)) :
    Keeps isLocal σ σ' response := by
  rw [touchPoll] at hstep
  split at hstep
  · rename_i hlock
    obtain ⟨rfl, rfl⟩ := Prod.mk.inj (Option.some.inj hstep)
    refine h.keeps (outside_of_unlocked h hlock (fun other => get_modify_of_ne _) fun after hafter => ?_)
    obtain ⟨before, hbefore, rfl⟩ := get_modify_self _ hafter
    exact ⟨before, hbefore, rfl, List.Sublist.refl _, fun _ =>
      ⟨rfl, fun hexact => hexact.of_eq rfl rfl rfl rfl rfl⟩⟩
  · cases hstep

theorem deletePoll_keeps {id : ℤ} (h : Invariant isLocal σ)
    (hstep : deletePoll σ id = some (σ', response)) : Keeps isLocal σ σ' response := by
  rw [deletePoll] at hstep
  split at hstep
  · rename_i hlock
    obtain ⟨rfl, rfl⟩ := Prod.mk.inj (Option.some.inj hstep)
    refine h.keeps (outside_of_unlocked h hlock (fun other hne => ?_) fun after hafter => ?_)
    · rw [Table.get_erase, if_neg hne]
    · rw [Table.get_erase, if_pos rfl] at hafter
      cases hafter
  · cases hstep

/-! ### All steps -/

theorem step_keeps {op : Op} (h : Invariant isLocal σ) (hstep : Step isLocal σ (op, response) σ') :
    Keeps isLocal σ σ' response := by
  have hstep : next isLocal σ op = some (σ', response) := hstep
  cases op with
  | createPoll poll => exact createPoll_keeps h hstep
  | upsertRemotePoll poll kept => exact upsertRemotePoll_keeps h hstep
  | touchPoll id expiresAt lockVersion updatedAt => exact touchPoll_keeps h hstep
  | deletePoll id => exact deletePoll_keeps h hstep
  | votePoll t ballot => exact votePoll_keeps h hstep
  | applyRemotePollVote t activity actorMatches => exact applyRemotePollVote_keeps h hstep
  | findQuestion t found => exact findQuestion_keeps h hstep
  | authorizePollVote t result => exact authorizePollVote_keeps h hstep
  | lockPoll t => exact lockPoll_keeps h hstep
  | readUri t => exact readUri_keeps h hstep
  | readChoices t now => exact readChoices_keeps h hstep
  | insertVote t => exact insertVote_keeps h hstep
  | updatePoll t now => exact updatePoll_keeps h hstep
  | removePollData t accountId => exact removePollData_keeps h hstep
  | selectOwn t statusIds protectedStatusIds => exact selectOwn_keeps h hstep
  | lockOwn t => exact lockOwn_keeps h hstep
  | readVotes t => exact readVotes_keeps h hstep
  | lockVoted t id => exact lockVoted_keeps h hstep
  | discountPoll t now => exact discountPoll_keeps h hstep
  | deleteVotes t => exact deleteVotes_keeps h hstep
  | deletePolls t => exact deletePolls_keeps h hstep
  | commit t => exact commitTransaction_keeps h hstep
  | rollback t error =>
    obtain ⟨rfl, rfl⟩ := Prod.mk.inj (Option.some.inj hstep)
    exact keeps_rollback h

theorem invariant_of_run {labels : List (Op × Response)}
    (h : Run (Step isLocal) State.initial labels σ) : Invariant isLocal σ :=
  h.preserves (fun _ _ _ hinv hstep => (step_keeps hinv hstep).1) invariant_initial

/-- CORRECT (exact tallies): in every state that the votes, removals and creations come to, statement
    by statement and in any order, the committed counts of a local poll are those of its votes, and
    the votes are ones that the poll allows, each activity of a voter counting once; and no answer but
    that of a commit comes with a change of the committed rows. -/
theorem tallies_exact {labels : List (Op × Response)}
    (h : Run (Step isLocal) State.initial labels σ) :
    (∀ ballots ∈ σ.ballots.rows, isLocal ballots.poll.accountId = true → Exact ballots) ∧
      ∀ op response σ', Step isLocal σ (op, response) σ' → response ≠ .committed →
        σ'.ballots = σ.ballots := by
  have hinv := invariant_of_run h
  refine ⟨fun ballots hballots => ?_, fun op response σ' hstep => (step_keeps hinv hstep).2⟩
  exact (hinv.good _ ballots (Table.mem_iff_get.mp hballots)).exact

/-- A poll of account 1 that account 2 and account 3 vote in, the second one from elsewhere and twice
    with one activity, before account 2 is removed. -/
def surveyOps : List Op :=
  [.createPoll ⟨7, 1, 70, ["yes", "no"], true, false, none, 0⟩,
    .votePoll 0 ⟨2, 7, [1, 0]⟩, .authorizePollVote 0 (.ok ()), .lockPoll 0, .readChoices 0 5,
    .insertVote 0, .insertVote 0, .updatePoll 0 6, .commit 0,
    .applyRemotePollVote 1 ⟨3, "https://far/vote/1", "no"⟩ true, .findQuestion 1 (some 7),
    .authorizePollVote 1 (.ok ()), .removePollData 2 2, .selectOwn 2 [] [], .readVotes 2, .lockPoll 1,
    .readUri 1, .readChoices 1 7, .insertVote 1, .updatePoll 1 8, .commit 1,
    .lockVoted 2 7, .discountPoll 2 9, .deleteVotes 2, .deletePolls 2, .commit 2,
    .applyRemotePollVote 1 ⟨3, "https://far/vote/1", "no"⟩ true, .findQuestion 1 (some 7),
    .authorizePollVote 1 (.ok ()), .lockPoll 1, .readUri 1]

def isSurveyLocal (accountId : ℤ) : Bool := decide (accountId ≠ 3)

def survey : State × List (Op × Response) :=
  (exec (next isSurveyLocal) State.initial surveyOps).getD (State.initial, [])

theorem survey_run : Run (Step isSurveyLocal) State.initial survey.2 survey.1 := by
  have hsome : (exec (next isSurveyLocal) State.initial surveyOps).isSome = true := by decide
  have hexec : exec (next isSurveyLocal) State.initial surveyOps = some survey :=
    eq_some_getD (a := (State.initial, [])) hsome
  exact exec_run hexec

theorem tallies_exact_survey :
    survey.1.ballots.rows.map (fun ballots => ballots.poll.counts) = [⟨[0, 1], 1, some 1⟩] ∧
      ∀ ballots ∈ survey.1.ballots.rows, isSurveyLocal ballots.poll.accountId = true →
        Exact ballots :=
  ⟨by decide, (tallies_exact survey_run).1⟩

end Rustodon.Polls.Votes
