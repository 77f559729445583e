import Rustodon.Polls.RemoteTallies

/-! @src mastodon/write_repository/remote_ingest.rs | name:Runs of remote polls |
    scheme:labelled runs | family:polls

    The transactions on one note, in any order. Each of them has one of the effects on its poll, and
    only a newer version of the note, or its creation, has an effect that counts as significant. -/

namespace Rustodon.Polls
open Schemes.Checked Schemes.Json Schemes.Runs
open Ingest (Written)

inductive Operation where
  | create
  | update (authority : RemoteUpdateAuthority) (expectedPoll : Option (ℤ × ℤ))

def Operation.authority : Operation → RemoteUpdateAuthority
  | .create => .inbox
  | .update authority _ => authority

/-- A transaction: what it does with which document, and what it meets. -/
structure Label where
  env : Surroundings
  accountId : ℤ
  object : Value
  operation : Operation

def Label.apply (label : Label) (store : Store) : Written Store :=
  match label.operation with
  | .create => applyRemoteNoteCreate label.env label.accountId store label.object
  | .update authority expectedPoll =>
    applyRemoteNoteUpdateWithAuthority label.env label.accountId authority expectedPoll store
      label.object

/-- What fails is rolled back. -/
def Label.next (label : Label) (store : Store) : Store :=
  match label.apply store with
  | .ok store' => store'
  | .error _ => store

def Step (store : Store) (label : Label) (store' : Store) : Prop := store' = label.next store

def Store.ballots (store : Store) : Option Ballots := store.bind RemoteNote.ballots

/-- The document is a newer version of the note, or the first one. -/
def Label.Newer (label : Label) (store : Store) : Prop :=
  ∀ note ∈ store, ∃ data, RemoteNoteData.parse label.env label.object = .ok data ∧
    data.editedAt.isSome ∧ note.version < data.updatedAt

/-- Each option that the loop reads in the document has a title. -/
def Label.Titled (label : Label) : Prop :=
  ∀ object ∈ label.object.asObject, Polls.Titled object

/-- The poll has the options that the document reports, and for each of them the count that it
    reports, or nothing yet. -/
def Label.Reports (label : Label) (poll : Poll) : Prop :=
  ∃ object ∈ label.object.asObject, poll.options = (reported object).map Prod.fst ∧
    (poll.cachedTallies = (reported object).map Prod.snd ∨
      poll.cachedTallies = List.replicate poll.options.length 0)

theorem length_of_reports {label : Label} {poll : Poll} (h : label.Reports poll) :
    poll.cachedTallies.length = poll.options.length := by
  obtain ⟨object, -, hoptions, htallies | htallies⟩ := h
  · rw [hoptions, htallies, List.length_map, List.length_map]
  · rw [htallies, List.length_replicate]

/-! ### The effect of a step -/

/-- What is read of a poll in a document is read of the document as an object. -/
def ReadFrom (env : Surroundings) (object : Value) (poll : Option RemotePollData) : Prop :=
  ∀ data ∈ poll, ∃ fields ∈ object.asObject, remotePollData env fields = .ok data

variable {env : Surroundings} {object : Value} {data : RemoteNoteData}

theorem parse_poll (h : RemoteNoteData.parse env object = .ok data) :
    ReadFrom env object data.poll := by
  intro poll hpoll
  obtain ⟨fields, hfields, h⟩ := bind_eq_ok h
  obtain ⟨-, -, h⟩ := bind_eq_ok h
  obtain ⟨-, -, h⟩ := bind_eq_ok h
  obtain ⟨publishedAt, -, h⟩ := bind_eq_ok h
  obtain ⟨editedAt, -, h⟩ := bind_eq_ok h
  obtain ⟨read, hread, h⟩ := bind_eq_ok h
  obtain rfl := Except.ok.inj h
  refine ⟨fields, okOr_eq_ok hfields, ?_⟩
  rw [remoteNotePoll] at hread
  split at hread
  · obtain ⟨data, hdata, rfl⟩ := map_eq_ok hread
    obtain rfl := Option.some.inj hpoll
    exact hdata
  · obtain rfl := Except.ok.inj hread
    cases hpoll

/-- The effect of a transaction on the poll of a note. -/
def Label.Affects (label : Label) (store store' : Store) : Prop :=
  ∃ poll, ReadFrom label.env label.object poll ∧
    Effect poll (label.Newer store) (label.operation.authority = .inbox) store.ballots
      store'.ballots

theorem Label.Affects.refl (label : Label) (store : Store) : label.Affects store store :=
  ⟨none, by simp [ReadFrom], .refl _⟩

theorem reconcileCurrent_effect {authority : RemoteUpdateAuthority} {note note' : RemoteNote}
    (h : reconcileCurrent env authority note data = .ok note') :
    Effect data.poll False (authority = .inbox) note.ballots note'.ballots := by
  rw [reconcileCurrent] at h
  split at h
  · obtain rfl := Except.ok.inj h
    exact .refl _
  · obtain ⟨⟨note', outcome⟩, hreconciled, rfl⟩ := map_eq_ok h
    refine (reconcileRemotePoll_effect hreconciled).mono Bool.false_ne_true ?_
    rintro rfl
    rfl

theorem updateRemoteNote_effect {authority : RemoteUpdateAuthority} {note note' : RemoteNote}
    (h : updateRemoteNote env authority note data = .ok note') :
    Effect data.poll (data.editedAt.isSome ∧ note.version < data.updatedAt) (authority = .inbox)
      note.ballots note'.ballots := by
  rw [updateRemoteNote] at h
  cases hedited : data.editedAt with
  | none =>
    rw [hedited] at h
    dsimp only at h
    split at h
    · obtain rfl := Except.ok.inj h
      exact .refl _
    · exact (reconcileCurrent_effect h).mono False.elim id
  | some editedAt =>
    rw [hedited] at h
    dsimp only at h
    split at h
    · obtain rfl := Except.ok.inj h
      exact .refl _
    rename_i hnotOlder
    split at h
    · exact (reconcileCurrent_effect h).mono False.elim id
    rename_i hnotCurrent
    obtain ⟨⟨reconciled, outcome⟩, hreconciled, h⟩ := bind_eq_ok h
    have heffect := reconcileRemotePoll_effect hreconciled
    have hballots : note'.ballots = reconciled.ballots := by
      dsimp only at h
      split at h <;> obtain rfl := Except.ok.inj h <;> rfl
    rw [hballots]
    refine heffect.mono (fun _ => ⟨rfl, by omega⟩) ?_
    rintro rfl
    rfl

theorem createRemoteNote_effect {accountId : ℤ} {note : RemoteNote}
    (h : createRemoteNote env accountId data = .ok note) :
    Effect data.poll True True none note.ballots := by
  rw [createRemoteNote] at h
  cases hpoll : data.poll with
  | none =>
    rw [hpoll] at h
    obtain rfl := Except.ok.inj h
    exact .absent
  | some poll =>
    rw [hpoll] at h
    obtain ⟨⟨note, outcome⟩, hupsert, rfl⟩ := map_eq_ok h
    have hreconciled : reconcileRemotePoll env (insertRemoteNote env accountId data) (some poll)
        true false false = .ok (note, outcome) := hupsert
    have heffect := reconcileRemotePoll_effect hreconciled
    rw [show (insertRemoteNote env accountId data).ballots = none from rfl] at heffect
    generalize note.ballots = after at heffect ⊢
    cases heffect with
    | absent => exact .absent
    | created _ data read allowed options tallies sum =>
      exact .created _ data read trivial options tallies sum

theorem newer_of_data {label : Label} {note : RemoteNote}
    (hparse : RemoteNoteData.parse label.env label.object = .ok data)
    (h : data.editedAt.isSome ∧ note.version < data.updatedAt) : label.Newer (some note) := by
  rintro note' hnote
  obtain rfl := Option.some.inj hnote
  exact ⟨data, hparse, h⟩

theorem create_affects {label : Label} {store store' : Store}
    (h : applyRemoteNoteCreate label.env label.accountId store label.object = .ok store') :
    label.Affects store store' := by
  obtain ⟨data, hparse, h⟩ := bind_eq_ok h
  split at h
  · obtain rfl := Except.ok.inj h
    exact .refl _ _
  cases store with
  | some note =>
    obtain ⟨-, -, h⟩ := bind_eq_ok h
    obtain ⟨-, -, h⟩ := bind_eq_ok h
    obtain rfl := Except.ok.inj h
    exact .refl _ _
  | none =>
    obtain ⟨note, hcreated, h⟩ := bind_eq_ok h
    obtain ⟨-, -, h⟩ := bind_eq_ok h
    obtain rfl := Except.ok.inj h
    exact ⟨data.poll, parse_poll hparse,
      (createRemoteNote_effect hcreated).mono (by simp [Label.Newer])
        fun _ => trivial⟩

theorem update_affects {label : Label} {store store' : Store} {authority : RemoteUpdateAuthority}
    {expectedPoll : Option (ℤ × ℤ)} (hoperation : label.operation = .update authority expectedPoll)
    (h : applyRemoteNoteUpdateWithAuthority label.env label.accountId authority expectedPoll store
      label.object = .ok store') : label.Affects store store' := by
  obtain ⟨data, hparse, h⟩ := bind_eq_ok h
  split at h
  · obtain rfl := Except.ok.inj h
    exact .refl _ _
  cases store with
  | none =>
    dsimp only at h
    split at h
    · obtain rfl := Except.ok.inj h
      exact .refl _ _
    · exact create_affects h
  | some note =>
    obtain ⟨-, -, h⟩ := bind_eq_ok h
    split at h
    · obtain rfl := Except.ok.inj h
      exact .refl _ _
    obtain ⟨-, -, h⟩ := bind_eq_ok h
    obtain ⟨note', hupdate, h⟩ := bind_eq_ok h
    obtain ⟨-, -, h⟩ := bind_eq_ok h
    obtain rfl := Except.ok.inj h
    refine ⟨data.poll, parse_poll hparse,
      (updateRemoteNote_effect hupdate).mono (newer_of_data hparse) ?_⟩
    intro hinbox
    rw [hoperation] at hinbox
    exact hinbox

theorem step_affects {label : Label} {store store' : Store} (h : Step store label store') :
    label.Affects store store' := by
  unfold Step Label.next at h
  split at h
  · rename_i result happly
    subst h
    cases hoperation : label.operation with
    | create =>
      rw [Label.apply, hoperation] at happly
      exact create_affects happly
    | update authority expectedPoll =>
      rw [Label.apply, hoperation] at happly
      exact update_affects hoperation happly
  · subst h
    exact .refl _ _

/-! ### What every step keeps -/

/-- The number of votes is the sum of the tallies. -/
def Summed (store : Store) : Prop :=
  ∀ ballots ∈ store.ballots, ballots.poll.votesCount = ballots.poll.cachedTallies.sum

theorem step_summed {label : Label} {store store' : Store} (h : Step store label store')
    (hsummed : Summed store) : Summed store' := by
  obtain ⟨poll, -, heffect⟩ := step_affects h
  unfold Summed at hsummed ⊢
  generalize store.ballots = before at hsummed heffect
  generalize store'.ballots = after at heffect
  cases heffect with
  | absent => simp
  | removed => simp
  | kept ballots ballots' votes same =>
    rintro _ ⟨⟩
    rw [same.2.2.1, same.2.1]
    exact hsummed ballots rfl
  | tallied ballots ballots' data read votes shape options tallies sum grows =>
    rintro _ ⟨⟩
    rw [sum, tallies]
  | reshaped ballots ballots' data read allowed shape votes options tallies sum voters =>
    rintro _ ⟨⟩
    rw [sum, tallies]
    simp
  | created ballots' data read allowed options tallies sum =>
    rintro _ ⟨⟩
    rw [sum, tallies]

/-- The poll is as it was at the start, or as a document of the history reports it. -/
def Accounted (start : Store) (labels : List Label) (store : Store) : Prop :=
  ∀ ballots ∈ store.ballots, (∃ label ∈ labels, label.Reports ballots.poll) ∨
    ∃ before ∈ start.ballots, before.poll.options = ballots.poll.options ∧
      before.poll.cachedTallies = ballots.poll.cachedTallies

theorem reports_of_read {label : Label} {read : Option RemotePollData} {data : RemotePollData}
    (htitled : label.Titled) (hread : ReadFrom label.env label.object read) (hdata : read = some data)
    {poll : Poll} (hoptions : poll.options = data.options)
    (htallies : poll.cachedTallies = data.tallies ∨
      poll.cachedTallies = List.replicate poll.options.length 0) : label.Reports poll := by
  obtain ⟨fields, hfields, hparsed⟩ := hread data hdata
  obtain ⟨htitles, hcounts⟩ := (remotePollData_reported hparsed).mpr (htitled fields hfields)
  exact ⟨fields, hfields, hoptions.trans htitles, htallies.imp_left fun h => h.trans hcounts⟩

theorem step_accounted {start store store' : Store} {labels : List Label} {label : Label}
    (htitled : label.Titled) (h : Step store label store') (haccounted : Accounted start labels store) :
    Accounted start (labels ++ [label]) store' := by
  have hlast : label ∈ labels ++ [label] := List.mem_append_right _ (List.mem_singleton_self _)
  obtain ⟨poll, hread, heffect⟩ := step_affects h
  unfold Accounted at haccounted ⊢
  generalize store.ballots = before at haccounted heffect
  generalize store'.ballots = after at heffect
  cases heffect with
  | absent => simp
  | removed => simp
  | kept ballots ballots' votes same =>
    rintro _ ⟨⟩
    obtain ⟨⟨hoptions, -⟩, htallies, -⟩ := same
    rcases haccounted ballots rfl with ⟨earlier, hearlier, hreports⟩ | hstart
    · refine .inl ⟨earlier, List.mem_append_left _ hearlier, ?_⟩
      rw [Label.Reports, hoptions, htallies]
      exact hreports
    · rw [hoptions, htallies]
      exact .inr hstart
  | tallied ballots ballots' data read votes shape options tallies sum grows =>
    rintro _ ⟨⟩
    exact .inl ⟨label, hlast, reports_of_read htitled hread read options (.inl tallies)⟩
  | reshaped ballots ballots' data read allowed shape votes options tallies sum voters =>
    rintro _ ⟨⟩
    exact .inl ⟨label, hlast, reports_of_read htitled hread read options (.inr tallies)⟩
  | created ballots' data read allowed options tallies sum =>
    rintro _ ⟨⟩
    exact .inl ⟨label, hlast, reports_of_read htitled hread read options (.inl tallies)⟩

/-- Numbers do not decrease by an inbox while the poll keeps its shape. -/
def Monotone (label : Label) (store store' : Store) : Prop :=
  label.operation.authority = .inbox → ∀ ballots ∈ store.ballots, ∀ ballots' ∈ store'.ballots,
    SameShape ballots.poll ballots'.poll → Grows ballots.poll ballots'.poll

/-- Without a newer version there is neither another poll nor another shape, and no vote is lost. -/
def Preserved (label : Label) (store store' : Store) : Prop :=
  ¬ label.Newer store → store'.ballots.isSome = store.ballots.isSome ∧
    ∀ ballots ∈ store.ballots, ∀ ballots' ∈ store'.ballots,
      SameShape ballots.poll ballots'.poll ∧ ballots'.votes = ballots.votes

/-- With another shape a poll starts again without votes. -/
def Restarted (store store' : Store) : Prop :=
  ∀ ballots ∈ store.ballots, ∀ ballots' ∈ store'.ballots,
    ¬ SameShape ballots.poll ballots'.poll → ballots'.votes = [] ∧
      ballots'.poll.cachedTallies = List.replicate ballots'.poll.options.length 0 ∧
      ballots'.poll.votesCount = 0 ∧ ballots'.poll.votersCount = some 0

theorem step_monotone {label : Label} {store store' : Store} (h : Step store label store') :
    Monotone label store store' := by
  intro hinbox
  obtain ⟨poll, -, heffect⟩ := step_affects h
  generalize store.ballots = before at heffect
  generalize store'.ballots = after at heffect
  cases heffect with
  | absent => simp
  | removed => simp
  | created => simp
  | kept ballots ballots' votes same =>
    rintro _ ⟨⟩ _ ⟨⟩ -
    exact same.grows
  | tallied ballots ballots' data read votes shape options tallies sum grows =>
    rintro _ ⟨⟩ _ ⟨⟩ -
    exact grows hinbox
  | reshaped ballots ballots' data read allowed shape votes options tallies sum voters =>
    rintro _ ⟨⟩ _ ⟨⟩ hshape
    exact absurd hshape shape

theorem step_preserved {label : Label} {store store' : Store} (h : Step store label store') :
    Preserved label store store' := by
  intro hnewer
  obtain ⟨poll, -, heffect⟩ := step_affects h
  generalize store.ballots = before at heffect
  generalize store'.ballots = after at heffect
  cases heffect with
  | absent => simp
  | removed _ allowed => exact absurd allowed hnewer
  | created _ _ _ allowed => exact absurd allowed hnewer
  | reshaped _ _ _ _ allowed => exact absurd allowed hnewer
  | kept ballots ballots' votes same =>
    refine ⟨rfl, ?_⟩
    rintro _ ⟨⟩ _ ⟨⟩
    exact ⟨same.1, votes⟩
  | tallied ballots ballots' data read votes shape options tallies sum grows =>
    refine ⟨rfl, ?_⟩
    rintro _ ⟨⟩ _ ⟨⟩
    exact ⟨shape, votes⟩

theorem step_restarted {label : Label} {store store' : Store} (h : Step store label store') :
    Restarted store store' := by
  obtain ⟨poll, -, heffect⟩ := step_affects h
  unfold Restarted
  generalize store.ballots = before at heffect
  generalize store'.ballots = after at heffect
  cases heffect with
  | absent => simp
  | removed => simp
  | created => simp
  | kept ballots ballots' votes same =>
    rintro _ ⟨⟩ _ ⟨⟩ hshape
    exact absurd same.1 hshape
  | tallied ballots ballots' data read votes shape options tallies sum grows =>
    rintro _ ⟨⟩ _ ⟨⟩ hshape
    exact absurd shape hshape
  | reshaped ballots ballots' data read allowed shape votes options tallies sum voters =>
    rintro _ ⟨⟩ _ ⟨⟩ -
    exact ⟨votes, tallies, sum, voters⟩

/-! ### Runs -/

variable {start store : Store} {labels : List Label}

theorem run_summed (run : Run Step start labels store) (hstart : Summed start) : Summed store :=
  run.preserves (fun _ _ _ hsummed hstep => step_summed hstep hsummed) hstart

theorem run_accounted (run : Run Step start labels store) (htitled : ∀ label ∈ labels, label.Titled) :
    Accounted start labels store := by
  refine (run.restrict htitled).invariant ?_ ?_
  · intro ballots hballots
    exact .inr ⟨ballots, hballots, rfl, rfl⟩
  · rintro labels store label store' - haccounted ⟨hlabel, hstep⟩
    exact step_accounted hlabel hstep haccounted

/-- CORRECT (remote polls): after every run from a note that is not there the number of votes is the
    sum of the tallies, and if every option of every document had a title, the tallies are those that
    a document reports for the stored options, or zero after a change of shape. Every step on any
    stored note lets numbers only grow by an inbox, changes a shape only with a newer version, and
    then starts again. A document whose tallies are parsed fits its options only with all titles. -/
theorem remote_polls (labels : List Label) (store : Store) :
    (Run Step none labels store → Summed store ∧
      ((∀ label ∈ labels, label.Titled) → ∀ ballots ∈ store.ballots,
        ballots.poll.cachedTallies.length = ballots.poll.options.length ∧
        ∃ label ∈ labels, label.Reports ballots.poll)) ∧
    (∀ (label : Label) (store' : Store), Step store label store' →
      Monotone label store store' ∧ Preserved label store store' ∧ Restarted store store') ∧
    (∀ (env : Surroundings) (object : Fields) (data : RemotePollData),
      remotePollData env object = .ok data →
        ((data.options = (reported object).map Prod.fst ∧
          data.tallies = (reported object).map Prod.snd) ↔ Titled object) ∧
        (data.options.length = data.tallies.length ↔ Titled object)) := by
  refine ⟨?_, ?_, ?_⟩
  · intro run
    refine ⟨run_summed run (by simp [Summed, Store.ballots]), ?_⟩
    intro htitled ballots hballots
    rcases run_accounted run htitled ballots hballots with ⟨label, hlabel, hreports⟩ | ⟨_, hnone, -⟩
    · exact ⟨length_of_reports hreports, label, hlabel, hreports⟩
    · simp [Store.ballots] at hnone
  · intro label store' hstep
    exact ⟨step_monotone hstep, step_preserved hstep, step_restarted hstep⟩
  · intro env object data hparsed
    exact ⟨remotePollData_reported hparsed, remotePollData_lengths hparsed⟩

/-! ### An option without a title -/

namespace Untitled

def surroundings : Surroundings where
  now := 1700000000000000
  newStatusId := 1
  newPollId := 2
  parseFromRfc3339 _ := none
  otherParts _ := .ok ()
  accountActive := true
  tombstoned := false
  otherChange := false
  expiration := .ok ()
  rest := .ok ()

/-- The second of three options has these fields beside its count. -/
def question (second : Fields) : Value :=
  .object
    [("type", .string "Question"),
      ("oneOf", .array
        [.object [("name", .string "Tea"), ("replies", .object [("totalItems", .number (.int 1))])],
          .object (second ++ [("replies", .object [("totalItems", .number (.int 5))])]),
          .object [("name", .string "Milk"),
            ("replies", .object [("totalItems", .number (.int 7))])]])]

def label (second : Fields) : Label := ⟨surroundings, 3, question second, .create⟩

end Untitled

/-- With a title for the second option its count stands beside it. -/
theorem remote_polls_sample :
    ∃ store ballots, Run Step none [Untitled.label [("name", .string "Coffee")]] store ∧
      store.ballots = some ballots ∧ ballots.poll.options = ["Tea", "Coffee", "Milk"] ∧
      ballots.poll.cachedTallies.length = ballots.poll.options.length ∧
      ∃ label ∈ [Untitled.label [("name", .string "Coffee")]], label.Reports ballots.poll := by
  have run : Run Step none ([] ++ [Untitled.label [("name", .string "Coffee")]])
      ((Untitled.label [("name", .string "Coffee")]).next none) := .snoc .nil rfl
  refine ⟨_, _, run, rfl, by decide, ((remote_polls _ _).1 run).2 ?_ _ rfl⟩
  intro label hlabel
  obtain rfl := List.mem_singleton.mp hlabel
  rintro object ⟨⟩
  decide

/-- The count of the option without a title is stored for the one behind it. -/
theorem remote_polls_shifted :
    ∃ store ballots, Run Step none [Untitled.label []] store ∧ store.ballots = some ballots ∧
      ballots.poll.options = ["Tea", "Milk"] ∧ ballots.poll.cachedTallies = [1, 5, 7] := by
  refine ⟨(Untitled.label []).next none, _, .snoc .nil rfl, rfl, ?_, ?_⟩
  · decide
  · decide

end Rustodon.Polls
