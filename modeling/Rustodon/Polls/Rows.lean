import Mathlib.Algebra.BigOperators.Group.List.Basic
import Mathlib.Algebra.Ring.Int.Defs
import Mathlib.Data.Int.Notation

/-! @src mastodon/write_repository.rs, mastodon/write_repository/remote_note.rs |
    name:Rows of polls | scheme:checked computations | family:polls

    A poll keeps what is known of its votes four times: in the rows of the votes, in a count for each
    option, in the number of votes and in the number of voters. -/

namespace Rustodon.Polls

/-- A row of `polls`. Times count microseconds. -/
structure Poll where
  id : ℤ
  accountId : ℤ
  statusId : ℤ
  options : List String
  cachedTallies : List ℤ
  votesCount : ℤ
  votersCount : Option ℤ
  multiple : Bool
  hideTotals : Bool
  expiresAt : Option ℤ
  lastFetchedAt : Option ℤ
  lockVersion : ℤ
  updatedAt : ℤ
  deriving DecidableEq

/-- A row of `poll_votes`. -/
structure PollVote where
  id : ℤ
  accountId : ℤ
  pollId : ℤ
  choice : ℤ
  uri : Option String
  deriving DecidableEq

/-- A poll with the votes cast in it. -/
structure Ballots where
  poll : Poll
  votes : List PollVote
  votes_of_poll : ∀ vote ∈ votes, vote.pollId = poll.id

/-- Changes the row of the poll, but not its id. -/
def Ballots.modify (ballots : Ballots) (f : Poll → Poll) (hid : ∀ poll, (f poll).id = poll.id) :
    Ballots where
  poll := f ballots.poll
  votes := ballots.votes
  votes_of_poll := fun vote hvote => (ballots.votes_of_poll vote hvote).trans (hid _).symm

/-- A poll that nobody has voted in. -/
def Ballots.empty (poll : Poll) : Ballots := ⟨poll, [], by simp⟩

@[simp] theorem Ballots.poll_modify (ballots : Ballots) (f : Poll → Poll) (hid) :
    (ballots.modify f hid).poll = f ballots.poll := rfl

@[simp] theorem Ballots.votes_modify (ballots : Ballots) (f : Poll → Poll) (hid) :
    (ballots.modify f hid).votes = ballots.votes := rfl

@[simp] theorem Ballots.poll_empty (poll : Poll) : (Ballots.empty poll).poll = poll := rfl

@[simp] theorem Ballots.votes_empty (poll : Poll) : (Ballots.empty poll).votes = [] := rfl

/-! ### 64-bit counts -/

/-- `i64::checked_add`. -/
def checkedAdd (a b : ℤ) : Option ℤ := if -2 ^ 63 ≤ a + b ∧ a + b < 2 ^ 63 then some (a + b) else none

theorem checkedAdd_eq_some {a b c : ℤ} (h : checkedAdd a b = some c) : c = a + b := by
  unfold checkedAdd at h
  split at h
  · exact (Option.some.inj h).symm
  · cases h

end Rustodon.Polls
