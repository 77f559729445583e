import Rustodon.Polls.Remote
import Rustodon.Schemes.Runs

/-! @src mastodon/write_repository/remote_note.rs, mastodon/write_repository/remote_ingest.rs |
    name:Tallies of remote polls | scheme:labelled runs | family:polls

    Everything a document may do to a poll is one of six effects. Sums, growth and the rules on new
    options hold for each of them. That the tallies stand beside their options rests on every option
    having a title, because an option without one still pushes its count. -/

namespace Rustodon.Polls
open Schemes.Checked Schemes.Json Schemes.Runs
open Ingest (Written)

/-! ### What a document reports -/

/-- The options that the loop reads. -/
def optionObjects (object : Fields) : List Fields :=
  (((questionOptions object).elim [] Prod.snd).take 500).filterMap Value.asObject

/-- The options with a title, each with the count reported for it. -/
def reported (object : Fields) : List (String × ℤ) :=
  (optionObjects object).filterMap fun option =>
    (optionTitle option).map fun title => (title, optionTally option)

/-- Every option that the loop reads has a title. -/
def Titled (object : Fields) : Prop := ∀ option ∈ optionObjects object, (optionTitle option).isSome

instance (object : Fields) : Decidable (Titled object) :=
  inferInstanceAs (Decidable (∀ option ∈ optionObjects object, (optionTitle option).isSome))

theorem pushOptions_eq_ok : ∀ {values : List Value} {pushed result : List String × List ℤ},
    values.foldlM pushOption pushed = .ok result →
      result.1 = pushed.1 ++ (values.filterMap Value.asObject).filterMap optionTitle ∧
      result.2 = pushed.2 ++ (values.filterMap Value.asObject).map optionTally
  | [], pushed, result, h => by
    obtain rfl := Except.ok.inj h
    simp
  | value :: values, pushed, result, h => by
    rw [List.foldlM_cons] at h
    obtain ⟨next, hfirst, h⟩ := bind_eq_ok h
    obtain ⟨option, hoption, hfirst⟩ := bind_eq_ok hfirst
    have hobject := okOr_eq_ok hoption
    obtain rfl := Except.ok.inj hfirst
    obtain ⟨htitles, htallies⟩ := pushOptions_eq_ok h
    rw [htitles, htallies, List.filterMap_cons_some hobject]
    refine ⟨?_, by simp⟩
    rw [List.append_assoc]
    cases htitle : optionTitle option with
    | none => simp [List.filterMap_cons, htitle]
    | some title => simp [List.filterMap_cons, htitle]

variable {env : Surroundings} {object : Fields} {data : RemotePollData}

theorem remotePollData_eq_ok (h : remotePollData env object = .ok data) :
    data.options = (optionObjects object).filterMap optionTitle ∧
      data.tallies = (optionObjects object).map optionTally := by
  obtain ⟨⟨multiple, values⟩, hvalues, h⟩ := bind_eq_ok h
  obtain ⟨⟨options, tallies⟩, hpushed, h⟩ := bind_eq_ok h
  obtain ⟨-, -, h⟩ := bind_eq_ok h
  obtain rfl := Except.ok.inj h
  obtain ⟨htitles, htallies⟩ := pushOptions_eq_ok hpushed
  rw [optionObjects, okOr_eq_ok hvalues]
  exact ⟨by simpa using htitles, by simpa using htallies⟩

theorem reported_titles (object : Fields) :
    (reported object).map Prod.fst = (optionObjects object).filterMap optionTitle := by
  rw [reported, List.map_filterMap]
  congr 1
  funext option
  cases optionTitle option <;> rfl

theorem length_reported (object : Fields) :
    (reported object).length = ((optionObjects object).filterMap optionTitle).length := by
  rw [← reported_titles, List.length_map]

theorem reported_tallies (h : Titled object) :
    (reported object).map Prod.snd = (optionObjects object).map optionTally := by
  rw [reported, List.map_filterMap]
  unfold Titled at h
  generalize optionObjects object = options at h ⊢
  induction options with
  | nil => rfl
  | cons option options ih =>
    obtain ⟨title, htitle⟩ := Option.isSome_iff_exists.mp (h option List.mem_cons_self)
    rw [List.filterMap_cons_some (by rw [htitle]; rfl), List.map_cons,
      ih fun option' hoption' => h option' (List.mem_cons_of_mem _ hoption')]

/-- Each option has its own count exactly when every option has a title. -/
theorem remotePollData_reported (h : remotePollData env object = .ok data) :
    (data.options = (reported object).map Prod.fst ∧
      data.tallies = (reported object).map Prod.snd) ↔ Titled object := by
  obtain ⟨hoptions, htallies⟩ := remotePollData_eq_ok h
  constructor
  · rintro ⟨-, hreported⟩
    have hlength : ((optionObjects object).filterMap optionTitle).length =
        (optionObjects object).length := by
      rw [← length_reported, ← (List.length_map Prod.snd : ((reported object).map _).length = _),
        ← hreported, htallies, List.length_map]
    exact List.filterMap_length_eq_length.mp hlength
  · intro htitled
    exact ⟨hoptions.trans (reported_titles object).symm,
      htallies.trans (reported_tallies htitled).symm⟩

theorem remotePollData_lengths (h : remotePollData env object = .ok data) :
    data.options.length = data.tallies.length ↔ Titled object := by
  obtain ⟨hoptions, htallies⟩ := remotePollData_eq_ok h
  rw [hoptions, htallies, List.length_map]
  exact List.filterMap_length_eq_length

theorem remotePollVotesCount_eq_ok {poll : RemotePollData} {votesCount : ℤ}
    (h : remotePollVotesCount poll = .ok votesCount) : votesCount = poll.tallies.sum := by
  have hfold : ∀ (tallies : List ℤ) (total : ℤ), tallies.foldlM checkedAdd total = some votesCount →
      votesCount = total + tallies.sum := by
    intro tallies
    induction tallies with
    | nil =>
      intro total h
      obtain rfl := Option.some.inj h
      simp
    | cons tally tallies ih =>
      intro total h
      rw [List.foldlM_cons] at h
      obtain ⟨next, hnext, h⟩ := Option.bind_eq_some_iff.mp h
      rw [ih next h, checkedAdd_eq_some hnext, List.sum_cons, add_assoc]
  simpa using hfold _ _ (okOr_eq_ok h)

/-! ### Effects -/

/-- The same options and the same multiplicity. -/
def SameShape (poll poll' : Poll) : Prop :=
  poll'.options = poll.options ∧ poll'.multiple = poll.multiple

/-- The same shape, and the same numbers. -/
def SameTallies (poll poll' : Poll) : Prop :=
  SameShape poll poll' ∧ poll'.cachedTallies = poll.cachedTallies ∧
    poll'.votesCount = poll.votesCount ∧ poll'.votersCount = poll.votersCount

/-- A known number of voters stays known, and does not decrease. -/
def VotersGrow (voters voters' : Option ℤ) : Prop := ∀ n ∈ voters, ∃ n' ∈ voters', n ≤ n'

/-- No number decreases. -/
def Grows (poll poll' : Poll) : Prop :=
  List.Forall₂ (· ≤ ·) poll.cachedTallies poll'.cachedTallies ∧
    poll.votesCount ≤ poll'.votesCount ∧ VotersGrow poll.votersCount poll'.votersCount

theorem SameTallies.refl (poll : Poll) : SameTallies poll poll := ⟨⟨rfl, rfl⟩, rfl, rfl, rfl⟩

theorem VotersGrow.refl (voters : Option ℤ) : VotersGrow voters voters :=
  fun n hn => ⟨n, hn, Int.le_refl n⟩

theorem SameTallies.grows {poll poll' : Poll} (h : SameTallies poll poll') : Grows poll poll' := by
  obtain ⟨-, htallies, hvotes, hvoters⟩ := h
  rw [Grows, htallies, hvotes, hvoters]
  exact ⟨List.forall₂_same.mpr fun n _ => Int.le_refl n, Int.le_refl _, .refl _⟩

theorem votersGrow_of_monotonic {voters voters' : Option ℤ}
    (h : votersAreMonotonic voters voters' = true) : VotersGrow voters voters' := by
  intro n hn
  obtain rfl := Option.mem_def.mp hn
  cases voters' with
  | none => cases h
  | some n' => exact ⟨n', rfl, of_decide_eq_true h⟩

/-- What a poll read from a document may make of the poll of a note. -/
inductive Effect (poll : Option RemotePollData) (significant inbox : Prop) :
    Option Ballots → Option Ballots → Prop where
  | absent : Effect poll significant inbox none none
  | kept (ballots ballots' : Ballots) (votes : ballots'.votes = ballots.votes)
      (same : SameTallies ballots.poll ballots'.poll) :
      Effect poll significant inbox (some ballots) (some ballots')
  | tallied (ballots ballots' : Ballots) (data : RemotePollData) (read : poll = some data)
      (votes : ballots'.votes = ballots.votes) (shape : SameShape ballots.poll ballots'.poll)
      (options : ballots'.poll.options = data.options)
      (tallies : ballots'.poll.cachedTallies = data.tallies)
      (sum : ballots'.poll.votesCount = data.tallies.sum)
      (grows : inbox → Grows ballots.poll ballots'.poll) :
      Effect poll significant inbox (some ballots) (some ballots')
  | reshaped (ballots ballots' : Ballots) (data : RemotePollData) (read : poll = some data)
      (allowed : significant) (shape : ¬ SameShape ballots.poll ballots'.poll)
      (votes : ballots'.votes = []) (options : ballots'.poll.options = data.options)
      (tallies : ballots'.poll.cachedTallies = List.replicate ballots'.poll.options.length 0)
      (sum : ballots'.poll.votesCount = 0) (voters : ballots'.poll.votersCount = some 0) :
      Effect poll significant inbox (some ballots) (some ballots')
  | created (ballots' : Ballots) (data : RemotePollData) (read : poll = some data)
      (allowed : significant) (options : ballots'.poll.options = data.options)
      (tallies : ballots'.poll.cachedTallies = data.tallies)
      (sum : ballots'.poll.votesCount = data.tallies.sum) :
      Effect poll significant inbox none (some ballots')
  | removed (ballots : Ballots) (allowed : significant) :
      Effect poll significant inbox (some ballots) none

theorem Effect.refl {poll : Option RemotePollData} {significant inbox : Prop} :
    ∀ ballots : Option Ballots, Effect poll significant inbox ballots ballots
  | none => .absent
  | some ballots => .kept ballots ballots rfl (.refl _)

theorem sameTallies_markFetchedAt (env : Surroundings) (markFetched : Bool) (existing : Poll) :
    SameTallies existing (markFetchedAt env markFetched existing) := by
  cases markFetched <;> exact .refl _

theorem shapeChanged_eq_false {existing : Poll} {data : RemotePollData}
    (h : shapeChanged existing data = false) :
    existing.options = data.options ∧ existing.multiple = data.multiple := by
  simpa [shapeChanged] using h

theorem forall₂_of_zip_all : ∀ {tallies tallies' : List ℤ}, tallies.length = tallies'.length →
    (tallies.zip tallies').all (fun (cached, incoming) => decide (cached ≤ incoming)) = true →
      List.Forall₂ (· ≤ ·) tallies tallies'
  | [], [], _, _ => .nil
  | cached :: tallies, incoming :: tallies', hlength, h => by
    rw [List.zip_cons_cons, List.all_cons, Bool.and_eq_true] at h
    exact .cons (of_decide_eq_true h.1) (forall₂_of_zip_all (by simpa using hlength) h.2)

theorem updateRemotePoll_effect {ballots ballots' : Ballots} {outcome : RemotePollReconcile}
    {allowed reject markFetched : Bool}
    (h : updateRemotePoll env ballots data allowed reject markFetched = .ok (ballots', outcome)) :
    Effect (some data) (allowed = true) (reject = true) (some ballots) (some ballots') := by
  rw [updateRemotePoll] at h
  split at h
  · cases h
    exact .refl _
  rename_i hallowed
  obtain ⟨votesCount, hcount, h⟩ := bind_eq_ok h
  have hsum := remotePollVotesCount_eq_ok hcount
  split at h
  · cases h
    exact .refl _
  rename_i hmonotonic
  split at h
  · cases h
    exact .kept _ _ rfl (sameTallies_markFetchedAt env markFetched ballots.poll)
  obtain ⟨-, -, h⟩ := bind_eq_ok h
  cases hchanged : shapeChanged ballots.poll data with
  | true =>
    rw [hchanged, if_pos rfl] at h
    cases h
    refine .reshaped _ _ data rfl (by simpa [hchanged] using hallowed) ?_ rfl rfl rfl rfl rfl
    rintro ⟨hoptions, hmultiple⟩
    have hoptions : data.options = ballots.poll.options := hoptions
    have hmultiple : data.multiple = ballots.poll.multiple := hmultiple
    simp [shapeChanged, hoptions, hmultiple] at hchanged
  | false =>
    rw [hchanged, if_neg Bool.false_ne_true] at h
    cases h
    obtain ⟨hoptions, hmultiple⟩ := shapeChanged_eq_false hchanged
    refine .tallied _ _ data rfl rfl ⟨hoptions.symm, hmultiple.symm⟩ rfl rfl hsum ?_
    intro hreject
    rw [hchanged, hreject] at hmonotonic
    have hgrows : remotePollTalliesAreMonotonic ballots.poll.cachedTallies ballots.poll.votesCount
        ballots.poll.votersCount data votesCount = true := by simpa using hmonotonic
    simp only [remotePollTalliesAreMonotonic, Bool.and_eq_true] at hgrows
    obtain ⟨⟨⟨hlength, htallies⟩, hvotes⟩, hvoters⟩ := hgrows
    exact ⟨forall₂_of_zip_all (of_decide_eq_true hlength) htallies, of_decide_eq_true hvotes,
      votersGrow_of_monotonic hvoters⟩

theorem reconcileRemotePoll_effect {note note' : RemoteNote} {poll : Option RemotePollData}
    {outcome : RemotePollReconcile} {allowed reject markFetched : Bool}
    (h : reconcileRemotePoll env note poll allowed reject markFetched = .ok (note', outcome)) :
    Effect poll (allowed = true) (reject = true) note.ballots note'.ballots := by
  cases poll with
  | none =>
    rw [reconcileRemotePoll] at h
    split at h
    · cases h
      exact .refl _
    · rename_i hremoved
      cases h
      cases hballots : note.ballots with
      | none => simp [hballots] at hremoved
      | some ballots => exact .removed ballots (by simpa [hballots] using hremoved)
  | some data =>
    rw [reconcileRemotePoll, upsertRemotePoll] at h
    cases hballots : note.ballots with
    | none =>
      rw [hballots] at h
      dsimp only at h
      split at h
      · cases h
        rw [hballots]
        exact .absent
      · rename_i hallowed
        obtain ⟨votesCount, hcount, h⟩ := bind_eq_ok h
        cases h
        exact .created _ data rfl (by simpa using hallowed) rfl rfl
          (remotePollVotesCount_eq_ok hcount)
    | some ballots =>
      rw [hballots] at h
      obtain ⟨⟨ballots', outcome'⟩, hupdate, h⟩ := bind_eq_ok h
      cases h
      exact updateRemotePoll_effect hupdate

theorem Effect.mono {poll : Option RemotePollData} {significant significant' inbox inbox' : Prop}
    {ballots ballots' : Option Ballots} (hsignificant : significant → significant')
    (hinbox : inbox' → inbox) (h : Effect poll significant inbox ballots ballots') :
    Effect poll significant' inbox' ballots ballots' := by
  cases h with
  | absent => exact .absent
  | kept _ _ votes same => exact .kept _ _ votes same
  | tallied _ _ data read votes shape options tallies sum grows =>
    exact .tallied _ _ data read votes shape options tallies sum (grows ∘ hinbox)
  | reshaped _ _ data read allowed shape votes options tallies sum voters =>
    exact .reshaped _ _ data read (hsignificant allowed) shape votes options tallies sum voters
  | created _ data read allowed options tallies sum =>
    exact .created _ data read (hsignificant allowed) options tallies sum
  | removed _ allowed => exact .removed _ (hsignificant allowed)

end Rustodon.Polls
