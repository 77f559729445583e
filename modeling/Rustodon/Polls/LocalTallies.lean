import Mathlib.Data.List.Perm.Basic
import Rustodon.Polls.Rows
import Rustodon.Schemes.Tallies

/-! @src mastodon/write_repository.rs | name:Tallies of local polls | scheme:tallies | family:polls

    What the votes of a local poll add to its counts, and what is taken from them when a voter is
    removed. Counts are changed by what a ballot adds or takes, and are never counted anew. -/

namespace Rustodon.Polls
open Schemes.Tallies

/-! ### The votes of an account -/

/-- `SELECT … FROM poll_votes WHERE poll_id = $1 AND account_id = $2 ORDER BY id`. -/
def Ballots.votesOf (ballots : Ballots) (accountId : ℤ) : List PollVote :=
  ballots.votes.filter fun vote => decide (vote.accountId = accountId)

def Ballots.choicesOf (ballots : Ballots) (accountId : ℤ) : List ℤ :=
  (ballots.votesOf accountId).map PollVote.choice

/-- `INSERT INTO poll_votes`. -/
def Ballots.insert (ballots : Ballots) (vote : PollVote) : Ballots :=
  if hpoll : vote.pollId = ballots.poll.id then
    ⟨ballots.poll, ballots.votes ++ [vote], by
      intro other hother
      rcases List.mem_append.mp hother with hother | hother
      · exact ballots.votes_of_poll other hother
      · exact List.mem_singleton.mp hother ▸ hpoll⟩
  else ballots

/-- Keeps the votes that meet a condition. -/
def Ballots.keep (ballots : Ballots) (p : PollVote → Bool) : Ballots where
  poll := ballots.poll
  votes := ballots.votes.filter p
  votes_of_poll := fun vote hvote => ballots.votes_of_poll vote (List.mem_of_mem_filter hvote)

/-- A poll without the votes of an account. -/
def Ballots.without (ballots : Ballots) (accountId : ℤ) : Ballots :=
  ballots.keep fun vote => decide (vote.accountId ≠ accountId)

@[simp] theorem Ballots.poll_insert (ballots : Ballots) (vote : PollVote) :
    (ballots.insert vote).poll = ballots.poll := by
  rw [Ballots.insert]
  split <;> rfl

theorem Ballots.votes_insert {ballots : Ballots} {vote : PollVote}
    (hpoll : vote.pollId = ballots.poll.id) :
    (ballots.insert vote).votes = ballots.votes ++ [vote] := by
  rw [Ballots.insert, dif_pos hpoll]

@[simp] theorem Ballots.poll_keep (ballots : Ballots) (p : PollVote → Bool) :
    (ballots.keep p).poll = ballots.poll := rfl

@[simp] theorem Ballots.votes_keep (ballots : Ballots) (p : PollVote → Bool) :
    (ballots.keep p).votes = ballots.votes.filter p := rfl

@[simp] theorem Ballots.poll_without (ballots : Ballots) (accountId : ℤ) :
    (ballots.without accountId).poll = ballots.poll := rfl

theorem Ballots.votes_without (ballots : Ballots) (accountId : ℤ) :
    (ballots.without accountId).votes =
      ballots.votes.filter fun vote => decide (vote.accountId ≠ accountId) := rfl

theorem Ballots.ext_of {ballots ballots' : Ballots} (hpoll : ballots.poll = ballots'.poll)
    (hvotes : ballots.votes = ballots'.votes) : ballots = ballots' := by
  cases ballots
  cases ballots'
  obtain rfl := hpoll
  obtain rfl := hvotes
  rfl

theorem Ballots.without_eq_self {ballots : Ballots} {accountId : ℤ}
    (h : ballots.choicesOf accountId = []) : ballots.without accountId = ballots := by
  refine Ballots.ext_of rfl (List.filter_eq_self.mpr fun vote hvote => ?_)
  have hnone := List.filter_eq_nil_iff.mp (List.map_eq_nil_iff.mp h) vote hvote
  simpa using hnone

theorem Ballots.mem_votesOf {ballots : Ballots} {accountId : ℤ} {vote : PollVote} :
    vote ∈ ballots.votesOf accountId ↔ vote ∈ ballots.votes ∧ vote.accountId = accountId := by
  simp [Ballots.votesOf]

/-! ### Counts -/

/-- `i64::saturating_add`. -/
def saturatingAdd (a b : ℤ) : ℤ := max (-2 ^ 63) (min (a + b) (2 ^ 63 - 1))

theorem saturatingAdd_eq {a b : ℤ} (h0 : 0 ≤ a + b) (h : a + b < 2 ^ 63) :
    saturatingAdd a b = a + b := by
  unfold saturatingAdd
  omega

/-- The counts of a poll that its votes change. -/
structure Counts where
  cachedTallies : List ℤ
  votesCount : ℤ
  votersCount : Option ℤ
  deriving DecidableEq

def Poll.counts (poll : Poll) : Counts := ⟨poll.cachedTallies, poll.votesCount, poll.votersCount⟩

/-- `UPDATE polls SET cached_tallies = $2, votes_count = $3, voters_count = $4, …`. -/
def Ballots.setCounts (ballots : Ballots) (counts : Counts) (lockVersion updatedAt : ℤ) : Ballots :=
  ballots.modify (fun poll =>
    { poll with
      cachedTallies := counts.cachedTallies
      votesCount := counts.votesCount
      votersCount := counts.votersCount
      lockVersion := lockVersion
      updatedAt := updatedAt }) fun _ => rfl

/-- `tallies.resize(options.len(), 0)`, where there are fewer. -/
def resizeTallies (tallies : List ℤ) (options : ℕ) : List ℤ :=
  if tallies.length < options then tallies ++ List.replicate (options - tallies.length) 0
  else tallies

/-- `tallies[index] = tallies[index].saturating_add(1)`. -/
def countVote (tallies : List ℤ) (choice : ℤ) : List ℤ :=
  tallies.modify choice.toNat (saturatingAdd · 1)

/-- The counts after a ballot. -/
def Poll.counted (poll : Poll) (tallies : List ℤ) (votes : ℕ) (firstBallot : Bool) : Counts where
  cachedTallies := tallies
  votesCount := saturatingAdd poll.votesCount votes
  votersCount := poll.votersCount.map (saturatingAdd · (if firstBallot then 1 else 0))

/-- `*tally = (*tally - 1).max(0)`, where the poll has the option. -/
def discountVote (tallies : List ℤ) (choice : ℤ) : List ℤ :=
  if 0 ≤ choice then tallies.modify choice.toNat (fun count => max (count - 1) 0) else tallies

/-- The counts after the removal of a voter. -/
def Poll.discounted (poll : Poll) (choices : List ℤ) : Counts where
  cachedTallies := choices.foldl discountVote poll.cachedTallies
  votesCount := max (poll.votesCount - choices.length) 0
  votersCount := poll.votersCount.map fun count => max (count - 1) 0

/-! ### Exact tallies -/

/-- The counts of a poll are those of its votes, and the votes are ones that the poll allows. -/
structure Exact (ballots : Ballots) : Prop where
  /-- There is one entry for each option, and it counts the rows with this choice. -/
  cachedTallies : ballots.poll.cachedTallies =
    tally ballots.poll.options.length (ballots.votes.map PollVote.choice)
  votesCount : ballots.poll.votesCount = ballots.poll.cachedTallies.sum
  votersCount : ballots.poll.votersCount =
    some (distinct (ballots.votes.map PollVote.accountId) : ℤ)
  choices : ∀ vote ∈ ballots.votes,
    0 ≤ vote.choice ∧ vote.choice < ballots.poll.options.length
  /-- A voter chooses an option once. -/
  once : (ballots.votes.map fun vote => (vote.accountId, vote.choice)).Nodup
  /-- A voter chooses one option, where the poll does not allow more. -/
  single : ballots.poll.multiple = false → (ballots.votes.map PollVote.accountId).Nodup
  owner : ∀ vote ∈ ballots.votes, vote.accountId ≠ ballots.poll.accountId
  /-- An activity of a voter counts once. -/
  uris : ballots.votes.Pairwise fun vote other =>
    vote.accountId = other.accountId → vote.uri.isSome → vote.uri ≠ other.uri

variable {ballots : Ballots} {accountId : ℤ} {uri : Option String} {choices : List ℤ}

theorem Exact.votesCount_eq (h : Exact ballots) :
    ballots.poll.votesCount = ballots.votes.length := by
  rw [h.votesCount, h.cachedTallies, sum_tally, List.length_map]
  intro choice hchoice
  obtain ⟨vote, hvote, rfl⟩ := List.mem_map.mp hchoice
  exact h.choices vote hvote

/-- Nothing else of a poll matters. -/
theorem Exact.of_eq {ballots' : Ballots} (h : Exact ballots) (hvotes : ballots'.votes = ballots.votes)
    (hcounts : ballots'.poll.counts = ballots.poll.counts)
    (hoptions : ballots'.poll.options = ballots.poll.options)
    (hmultiple : ballots'.poll.multiple = ballots.poll.multiple)
    (howner : ballots'.poll.accountId = ballots.poll.accountId) : Exact ballots' := by
  simp only [Poll.counts, Counts.mk.injEq] at hcounts
  obtain ⟨htallies, hcount, hvoters⟩ := hcounts
  constructor
  · rw [htallies, hoptions, hvotes]
    exact h.cachedTallies
  · rw [hcount, htallies]
    exact h.votesCount
  · rw [hvoters, hvotes]
    exact h.votersCount
  · rw [hvotes, hoptions]
    exact h.choices
  · rw [hvotes]
    exact h.once
  · rw [hvotes, hmultiple]
    exact h.single
  · rw [hvotes, howner]
    exact h.owner
  · rw [hvotes]
    exact h.uris

/-- A poll that is created counts zero for each of its options. -/
theorem exact_empty {poll : Poll} (htallies : poll.cachedTallies = poll.options.map fun _ => 0)
    (hvotes : poll.votesCount = 0) (hvoters : poll.votersCount = some 0) :
    Exact (Ballots.empty poll) where
  cachedTallies := by simp [htallies, List.map_const']
  votesCount := by simp [htallies, hvotes, List.map_const']
  votersCount := by simp [hvoters]
  choices := by simp
  once := by simp
  single := by simp
  owner := by simp
  uris := by simp

/-! ### A ballot -/

/-- A ballot that a poll allows next to the votes it has. -/
structure Admissible (ballots : Ballots) (accountId : ℤ) (uri : Option String) (choices : List ℤ) :
    Prop where
  inRange : ∀ choice ∈ choices, 0 ≤ choice ∧ choice < ballots.poll.options.length
  notOwner : accountId ≠ ballots.poll.accountId
  once : (ballots.choicesOf accountId ++ choices).Nodup
  single : ballots.poll.multiple = false → (ballots.choicesOf accountId ++ choices).length ≤ 1
  uris : uri.isSome → choices.length ≤ 1 ∧
    ∀ vote ∈ ballots.votesOf accountId, vote.uri ≠ uri

/-- What all rows of a ballot have. -/
def CastBy (pollId accountId : ℤ) (uri : Option String) (votes : List PollVote) : Prop :=
  ∀ vote ∈ votes, vote.pollId = pollId ∧ vote.accountId = accountId ∧ vote.uri = uri

theorem CastBy.append {pollId : ℤ} {votes : List PollVote} {vote : PollVote}
    (h : CastBy pollId accountId uri votes)
    (hvote : vote.pollId = pollId ∧ vote.accountId = accountId ∧ vote.uri = uri) :
    CastBy pollId accountId uri (votes ++ [vote]) := by
  intro other hother
  rcases List.mem_append.mp hother with hother | hother
  · exact h other hother
  · exact List.mem_singleton.mp hother ▸ hvote

/-- Counting choice by choice, where no count is at its limit. -/
theorem foldl_countVote {n : ℕ} {choices counted : List ℤ} (h0 : ∀ choice ∈ choices, 0 ≤ choice)
    (hlimit : ((counted ++ choices).length : ℤ) < 2 ^ 63) :
    choices.foldl countVote (tally n counted) = tally n (counted ++ choices) := by
  induction choices generalizing counted with
  | nil => rw [List.append_nil, List.foldl_nil]
  | cons choice choices ih =>
    have hstep : countVote (tally n counted) choice = tally n (counted ++ [choice]) := by
      rw [← tally_concat (h0 choice List.mem_cons_self), countVote]
      refine List.ext_getElem? fun i => ?_
      rw [List.getElem?_modify, List.getElem?_modify]
      cases hi : (tally n counted)[i]? with
      | none => rfl
      | some count =>
        obtain ⟨hpos, hle⟩ := tally_le count (List.mem_of_getElem? hi)
        rw [List.length_append, List.length_cons] at hlimit
        push_cast at hlimit
        have hadd : saturatingAdd count 1 = count + 1 := saturatingAdd_eq (by omega) (by omega)
        simp [hadd]
    have hsplit : counted ++ choice :: choices = (counted ++ [choice]) ++ choices := by simp
    rw [List.foldl_cons, hstep, hsplit]
    exact ih (fun other hother => h0 other (List.mem_cons_of_mem _ hother)) (hsplit ▸ hlimit)

theorem resizeTallies_eq {tallies : List ℤ} {n : ℕ} (h : tallies.length = n) :
    resizeTallies tallies n = tallies := by
  rw [resizeTallies, if_neg (by omega)]

theorem nodup_pairs {accountId : ℤ} {votes : List PollVote}
    (h : ∀ vote ∈ votes, vote.accountId = accountId) :
    (votes.map fun vote => (vote.accountId, vote.choice)) =
      (votes.map PollVote.choice).map fun choice => (accountId, choice) := by
  rw [List.map_map]
  exact List.map_congr_left fun vote hvote => by rw [Function.comp_apply, h vote hvote]

theorem votesOf_nil_iff : ballots.votesOf accountId = [] ↔
    accountId ∉ ballots.votes.map PollVote.accountId := by
  simp [Ballots.votesOf]

theorem choicesOf_nil_iff : ballots.choicesOf accountId = [] ↔
    accountId ∉ ballots.votes.map PollVote.accountId := by
  rw [← votesOf_nil_iff, Ballots.choicesOf, List.map_eq_nil_iff]

/-- The counts stay exact when the rows of an admissible ballot are inserted and counted. -/
theorem exact_cast {after : Ballots} {votes : List PollVote} {lockVersion updatedAt : ℤ}
    (hexact : Exact ballots)
    (hadmissible : Admissible ballots accountId uri (votes.map PollVote.choice))
    (hcast : CastBy ballots.poll.id accountId uri votes) (hne : votes ≠ [])
    (hlimit : (ballots.votes.length + votes.length : ℤ) < 2 ^ 63)
    (hpoll : after.poll = ballots.poll) (hvotes : after.votes = ballots.votes ++ votes) :
    Exact (after.setCounts
      (ballots.poll.counted
        ((votes.map PollVote.choice).foldl countVote
          (resizeTallies ballots.poll.cachedTallies ballots.poll.options.length))
        votes.length (ballots.choicesOf accountId).isEmpty) lockVersion updatedAt) := by
  have hby : ∀ vote ∈ votes, vote.accountId = accountId := fun vote hvote => (hcast vote hvote).2.1
  have htallies : (votes.map PollVote.choice).foldl countVote
      (resizeTallies ballots.poll.cachedTallies ballots.poll.options.length) =
        tally ballots.poll.options.length
          (ballots.votes.map PollVote.choice ++ votes.map PollVote.choice) := by
    rw [hexact.cachedTallies, resizeTallies_eq length_tally]
    refine foldl_countVote (fun choice hchoice => (hadmissible.inRange choice hchoice).1) ?_
    rw [List.length_append, List.length_map, List.length_map]
    push_cast
    exact hlimit
  have hchoices : ∀ vote ∈ ballots.votes ++ votes,
      0 ≤ vote.choice ∧ vote.choice < ballots.poll.options.length := by
    intro vote hvote
    rcases List.mem_append.mp hvote with hvote | hvote
    · exact hexact.choices vote hvote
    · exact hadmissible.inRange _ (List.mem_map_of_mem hvote)
  have hsum : (tally ballots.poll.options.length
      (ballots.votes.map PollVote.choice ++ votes.map PollVote.choice)).sum =
        ballots.votes.length + votes.length := by
    rw [← List.map_append, sum_tally, List.length_map, List.length_append, Int.natCast_add]
    intro choice hchoice
    obtain ⟨vote, hvote, rfl⟩ := List.mem_map.mp hchoice
    exact hchoices vote hvote
  have hfew : distinct (ballots.votes.map PollVote.accountId) ≤
      (ballots.votes.map PollVote.accountId).length := distinct_le
  rw [List.length_map] at hfew
  have hpos : 0 < votes.length := List.length_pos_iff.mpr hne
  constructor
  · simp only [Ballots.setCounts, Ballots.poll_modify, Ballots.votes_modify, Poll.counted, hpoll,
      hvotes, htallies, List.map_append]
  · simp only [Ballots.setCounts, Ballots.poll_modify, Poll.counted, htallies, hsum]
    rw [hexact.votesCount_eq, saturatingAdd_eq (by omega) (by omega)]
  · have hdistinct : distinct (ballots.votes.map PollVote.accountId ++ votes.map PollVote.accountId) =
        distinct (ballots.votes.map PollVote.accountId) +
          if accountId ∈ ballots.votes.map PollVote.accountId then 0 else 1 :=
      distinct_append (by simpa using hby) (by simpa using hne)
    simp only [Ballots.setCounts, Ballots.poll_modify, Ballots.votes_modify, Poll.counted, hvotes,
      hexact.votersCount, Option.map_some, List.map_append, hdistinct]
    congr 1
    by_cases hfirst : accountId ∈ ballots.votes.map PollVote.accountId
    · have hsome : (ballots.choicesOf accountId).isEmpty = false := by
        rw [List.isEmpty_eq_false_iff]
        exact fun h => choicesOf_nil_iff.mp h hfirst
      rw [if_pos hfirst, hsome, saturatingAdd_eq (by simp) (by simp; omega)]
      simp
    · have hnone : (ballots.choicesOf accountId).isEmpty = true := by
        rw [List.isEmpty_iff]
        exact choicesOf_nil_iff.mpr hfirst
      rw [if_neg hfirst, hnone, saturatingAdd_eq (by simp; omega) (by simp; omega)]
      simp
  · simp only [Ballots.setCounts, Ballots.poll_modify, Ballots.votes_modify, hpoll, hvotes]
    exact hchoices
  · simp only [Ballots.setCounts, Ballots.votes_modify, hvotes, List.map_append]
    rw [List.nodup_append]
    refine ⟨hexact.once, ?_, ?_⟩
    · rw [nodup_pairs hby]
      exact (List.nodup_append.mp hadmissible.once).2.1.map fun _ _ h => (Prod.mk.inj h).2
    · rintro pair hold other hnew rfl
      obtain ⟨vote, hvote, rfl⟩ := List.mem_map.mp hnew
      obtain ⟨vote', hvote', heq⟩ := List.mem_map.mp hold
      obtain ⟨haccount, hchoice⟩ := Prod.mk.inj heq
      refine (List.nodup_append.mp hadmissible.once).2.2 vote'.choice ?_ vote.choice
        (List.mem_map_of_mem hvote) hchoice
      exact List.mem_map_of_mem
        (Ballots.mem_votesOf.mpr ⟨hvote', haccount.trans (hby vote hvote)⟩)
  · simp only [Ballots.setCounts, Ballots.poll_modify, Ballots.votes_modify, hpoll, hvotes,
      List.map_append]
    intro hmultiple
    have hlength := hadmissible.single hmultiple
    rw [List.length_append, List.length_map] at hlength
    have hnil : ballots.choicesOf accountId = [] := List.length_eq_zero_iff.mp (by omega)
    rw [List.nodup_append]
    refine ⟨hexact.single hmultiple, ?_, ?_⟩
    · obtain ⟨vote, rfl⟩ := List.length_eq_one_iff.mp (show votes.length = 1 by omega)
      exact List.nodup_singleton _
    · rintro voter hold other hnew rfl
      obtain ⟨vote, hvote, rfl⟩ := List.mem_map.mp hnew
      exact choicesOf_nil_iff.mp hnil (hby vote hvote ▸ hold)
  · simp only [Ballots.setCounts, Ballots.poll_modify, Ballots.votes_modify, hpoll, hvotes]
    intro vote hvote
    rcases List.mem_append.mp hvote with hvote | hvote
    · exact hexact.owner vote hvote
    · exact hby vote hvote ▸ hadmissible.notOwner
  · simp only [Ballots.setCounts, Ballots.votes_modify, hvotes]
    refine List.pairwise_append.mpr ⟨hexact.uris, ?_, ?_⟩
    · cases uri with
      | none =>
        refine List.pairwise_iff_forall_sublist.mpr fun {vote other} hsub _ hsome => ?_
        have hvote := hsub.subset List.mem_cons_self
        rw [(hcast vote hvote).2.2] at hsome
        cases hsome
      | some uri =>
        have hlength := (hadmissible.uris rfl).1
        rw [List.length_map] at hlength
        obtain ⟨vote, rfl⟩ := List.length_eq_one_iff.mp (show votes.length = 1 by omega)
        exact List.pairwise_singleton _ _
    · intro vote hvote other hother haccount hsome huri
      obtain ⟨-, hbyOther, huriOther⟩ := hcast other hother
      rw [huriOther] at huri
      rw [huri] at hsome
      exact (hadmissible.uris hsome).2 vote
        (Ballots.mem_votesOf.mpr ⟨hvote, haccount.trans hbyOther⟩) huri

/-! ### The removal of a voter -/

theorem foldl_discountVote {n : ℕ} : ∀ {choices counted : List ℤ},
    (∀ choice ∈ choices, 0 ≤ choice) →
      choices.foldl discountVote (tally n (choices ++ counted)) = tally n counted
  | [], _, _ => rfl
  | choice :: choices, counted, h0 => by
    have hfirst := h0 choice List.mem_cons_self
    rw [List.foldl_cons, List.cons_append, discountVote, if_pos hfirst, tally_tail hfirst]
    exact foldl_discountVote fun other hother => h0 other (List.mem_cons_of_mem _ hother)

/-- The counts are exact for the other votes when those of a voter are taken from them. -/
theorem exact_without {after : Ballots} {lockVersion updatedAt : ℤ} (hexact : Exact ballots)
    (hvoted : ballots.choicesOf accountId ≠ []) (hpoll : after.poll = ballots.poll)
    (hvotes : after.votes = ballots.votes) :
    Exact ((after.setCounts (ballots.poll.discounted (ballots.choicesOf accountId)) lockVersion
      updatedAt).without accountId) := by
  have hperm : (ballots.votes.map PollVote.choice).Perm
      (ballots.choicesOf accountId ++ (ballots.without accountId).votes.map PollVote.choice) := by
    rw [Ballots.choicesOf, ← List.map_append]
    refine List.Perm.map _ ?_
    have hsplit := List.filter_append_perm (fun vote : PollVote => decide (vote.accountId = accountId))
      ballots.votes
    refine hsplit.symm.trans ?_
    rw [Ballots.votesOf, Ballots.votes_without]
    simp
  have htallies : (ballots.choicesOf accountId).foldl discountVote ballots.poll.cachedTallies =
      tally ballots.poll.options.length
        ((ballots.without accountId).votes.map PollVote.choice) := by
    rw [hexact.cachedTallies, tally_perm hperm]
    refine foldl_discountVote fun choice hchoice => ?_
    obtain ⟨vote, hvote, rfl⟩ := List.mem_map.mp hchoice
    exact (hexact.choices vote (Ballots.mem_votesOf.mp hvote).1).1
  have hkept : ∀ vote ∈ (ballots.without accountId).votes, vote ∈ ballots.votes :=
    fun vote hvote => List.mem_of_mem_filter hvote
  have hsub : (ballots.without accountId).votes.Sublist ballots.votes := List.filter_sublist
  have hrest : ((after.setCounts (ballots.poll.discounted (ballots.choicesOf accountId)) lockVersion
      updatedAt).without accountId).votes = (ballots.without accountId).votes := by
    rw [Ballots.votes_without, Ballots.votes_without, Ballots.setCounts, Ballots.votes_modify, hvotes]
  have hlength := hperm.length_eq
  rw [List.length_map, List.length_append, List.length_map] at hlength
  constructor
  · rw [hrest]
    simp only [Ballots.poll_without, Ballots.setCounts, Ballots.poll_modify, Poll.discounted, htallies,
      hpoll]
  · simp only [Ballots.poll_without, Ballots.setCounts, Ballots.poll_modify, Poll.discounted, htallies]
    rw [hexact.votesCount_eq, sum_tally, List.length_map]
    · omega
    · intro choice hchoice
      obtain ⟨vote, hvote, rfl⟩ := List.mem_map.mp hchoice
      exact hexact.choices vote (hkept vote hvote)
  · rw [hrest]
    have hmem : accountId ∈ ballots.votes.map PollVote.accountId := by
      by_contra hnone
      exact hvoted (choicesOf_nil_iff.mpr hnone)
    have hdistinct := distinct_filter hmem
    rw [List.filter_map] at hdistinct
    have hvoters : (ballots.without accountId).votes.map PollVote.accountId =
        (ballots.votes.filter ((fun other => decide (other ≠ accountId)) ∘ PollVote.accountId)).map
          PollVote.accountId := rfl
    simp only [Ballots.poll_without, Ballots.setCounts, Ballots.poll_modify, Poll.discounted,
      hexact.votersCount, Option.map_some, hvoters]
    congr 1
    omega
  · rw [hrest]
    simp only [Ballots.poll_without, Ballots.setCounts, Ballots.poll_modify, hpoll]
    exact fun vote hvote => hexact.choices vote (hkept vote hvote)
  · rw [hrest]
    exact hexact.once.sublist (hsub.map _)
  · rw [hrest]
    simp only [Ballots.poll_without, Ballots.setCounts, Ballots.poll_modify, hpoll]
    exact fun hmultiple => (hexact.single hmultiple).sublist (hsub.map _)
  · rw [hrest]
    simp only [Ballots.poll_without, Ballots.setCounts, Ballots.poll_modify, hpoll]
    exact fun vote hvote => hexact.owner vote (hkept vote hvote)
  · rw [hrest]
    exact hexact.uris.sublist hsub

end Rustodon.Polls
