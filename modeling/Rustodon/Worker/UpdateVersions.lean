import Mathlib.Data.Int.Order.Basic
import Mathlib.Tactic.SplitIfs

/-! @src worker.rs, worker/delivery.rs | name:Versions of status updates | scheme:fence | family:worker

    An update is given a version when it is distributed, and its deliveries are fenced by that
    version when they are sent. Both sides choose the version by the kind of the update. -/

namespace Rustodon.Worker

/-- A time in nanoseconds. -/
structure NaiveDateTime where
  nanos : ℤ
  deriving DecidableEq, Repr

namespace NaiveDateTime

/-- `and_utc().timestamp_micros()`, which rounds down. -/
def timestampMicros (t : NaiveDateTime) : ℤ := t.nanos / 1000

def max (s t : NaiveDateTime) : NaiveDateTime := if s.nanos ≤ t.nanos then t else s

/-- `DateTime::from_timestamp_micros`, between the first and the last date. -/
def fromTimestampMicros (micros : ℤ) : Option NaiveDateTime :=
  if -8334601228800 ≤ micros / 1000000 ∧ micros / 1000000 ≤ 8210266876799 then some ⟨micros * 1000⟩
  else none

/-- A `timestamp` column, which counts microseconds. -/
def ofColumn (micros : ℤ) : NaiveDateTime := ⟨micros * 1000⟩

@[simp] theorem timestampMicros_ofColumn (micros : ℤ) : (ofColumn micros).timestampMicros = micros := by
  simp only [timestampMicros, ofColumn]
  omega

theorem timestampMicros_max (s t : NaiveDateTime) :
    (s.max t).timestampMicros = Max.max s.timestampMicros t.timestampMicros := by
  unfold NaiveDateTime.max timestampMicros
  split_ifs
  · omega
  · omega

end NaiveDateTime

inductive StatusUpdateKind where
  | status
  | poll
  | quote
  | interactionPolicy
  | statusRepair
  | pollRepair
  deriving DecidableEq, Repr

namespace StatusUpdateKind

def parse (value : String) : Option StatusUpdateKind :=
  if value = "status" then some status
  else if value = "poll" then some poll
  else if value = "quote" then some quote
  else if value = "interaction_policy" then some interactionPolicy
  else if value = "status_repair" then some statusRepair
  else if value = "poll_repair" then some pollRepair
  else none

def isRepair : StatusUpdateKind → Bool
  | statusRepair | pollRepair => true
  | _ => false

def hasPollReach : StatusUpdateKind → Bool
  | poll | pollRepair => true
  | _ => false

def asStr : StatusUpdateKind → String
  | status => "status"
  | poll => "poll"
  | quote => "quote"
  | interactionPolicy => "interaction_policy"
  | statusRepair => "status_repair"
  | pollRepair => "poll_repair"

theorem parse_asStr (kind : StatusUpdateKind) : parse kind.asStr = some kind := by
  cases kind <;> decide

end StatusUpdateKind

/-! ### Distribution -/

def updateActivityId (objectUri : String) (version : NaiveDateTime) : String :=
  objectUri ++ "#updates/" ++ toString version.timestampMicros

def statusSnapshotRepairActivityId (objectUri : String) (editedAt : NaiveDateTime)
    (pollUpdatedAt : Option NaiveDateTime) : String :=
  objectUri ++ "#updates/repair/" ++ toString editedAt.timestampMicros ++ "/" ++
    pollUpdatedAt.elim "none" fun value => toString value.timestampMicros

/-- The time of the poll that an update is made for; `none` when it does not fit. -/
def selectedPollUpdatedAt (kind : StatusUpdateKind) (strictSnapshot : Bool) :
    Option NaiveDateTime → Option NaiveDateTime → Option (Option NaiveDateTime)
  | some requested, some current =>
    if requested = current then some (some requested)
    else if kind = .poll then some (some current)
    else none
  | none, some current => if strictSnapshot then none else some (some current)
  | none, none => some none
  | some _, none => none

def selectedEditedAt (strictSnapshot : Bool) (currentEditedAt : NaiveDateTime) :
    Option NaiveDateTime → Option NaiveDateTime
  | some requested => if requested = currentEditedAt then some requested else none
  | none => if strictSnapshot then none else some currentEditedAt

def selectedUpdateVersion (updateKind : StatusUpdateKind) (editedAt : NaiveDateTime)
    (pollUpdatedAt : Option NaiveDateTime) : Option NaiveDateTime :=
  match updateKind with
  | .status | .interactionPolicy | .statusRepair => some editedAt
  | .poll => pollUpdatedAt
  | .pollRepair => pollUpdatedAt.map editedAt.max
  | .quote => none

section Distribution

variable (currentEditedAt : NaiveDateTime) (currentPollUpdatedAt requestedEditedAt
  requestedPollUpdatedAt : Option NaiveDateTime) (updateKind : StatusUpdateKind)
  (strictSnapshot : Bool)

def statusUpdateVersions : Option (NaiveDateTime × Option NaiveDateTime × NaiveDateTime) := do
  if updateKind = .statusRepair ∧ currentPollUpdatedAt.isSome then none
  else
    let editedAt ← selectedEditedAt strictSnapshot currentEditedAt requestedEditedAt
    let pollUpdatedAt ← selectedPollUpdatedAt updateKind strictSnapshot requestedPollUpdatedAt
      currentPollUpdatedAt
    let updateVersion ← selectedUpdateVersion updateKind editedAt pollUpdatedAt
    some (editedAt, pollUpdatedAt, updateVersion)

inductive StatusUpdateVersionDecision where
  | deliver (editedAt : NaiveDateTime) (pollUpdatedAt : Option NaiveDateTime)
      (updateVersion : NaiveDateTime)
  | repair
  | stale
  deriving DecidableEq, Repr

def statusUpdateVersionDecision : StatusUpdateVersionDecision :=
  if strictSnapshot && updateKind.isRepair && (decide (requestedEditedAt ≠ some currentEditedAt) ||
      decide (requestedPollUpdatedAt ≠ currentPollUpdatedAt)) then .repair
  else
    match statusUpdateVersions currentEditedAt currentPollUpdatedAt requestedEditedAt
        requestedPollUpdatedAt updateKind strictSnapshot with
    | some (editedAt, pollUpdatedAt, updateVersion) =>
      .deliver editedAt pollUpdatedAt updateVersion
    | none => if strictSnapshot then .repair else .stale

end Distribution

/-! ### Delivery -/

def updateDeliveryIsCurrent (activityId : Option String) (objectUri : String)
    (version : NaiveDateTime) (requestedVersionMicros : Option ℤ) : Bool :=
  if requestedVersionMicros.any fun requested => decide (requested ≠ version.timestampMicros) then
    false
  else
    let expectedActivityId := updateActivityId objectUri version
    let legacyActivityId := objectUri ++ "#updates/" ++ toString (version.nanos / 1000000000)
    decide (activityId = some expectedActivityId) || decide (activityId = some legacyActivityId)

/-- The version that a delivery of a kind must have. -/
def expectedUpdateVersion (updateKind : StatusUpdateKind) (currentEditedAt : NaiveDateTime)
    (currentPollUpdatedAt : Option NaiveDateTime) (requestedUpdateVersionMicros : Option ℤ) :
    Option NaiveDateTime :=
  match updateKind with
  | .status | .interactionPolicy | .statusRepair => some currentEditedAt
  | .poll => currentPollUpdatedAt
  | .pollRepair => currentPollUpdatedAt.map currentEditedAt.max
  | .quote => requestedUpdateVersionMicros.bind NaiveDateTime.fromTimestampMicros

def statusUpdateDeliveryIsCurrent (updateKind : StatusUpdateKind) (activityId : Option String)
    (objectUri : String) (currentEditedAt : NaiveDateTime)
    (currentPollUpdatedAt : Option NaiveDateTime) (requestedEditedAtMicros
      requestedPollUpdatedAtMicros requestedUpdateVersionMicros : Option ℤ) : Bool :=
  if requestedEditedAtMicros ≠ some currentEditedAt.timestampMicros ∨
      requestedPollUpdatedAtMicros ≠ currentPollUpdatedAt.map (·.timestampMicros) then false
  else
    match expectedUpdateVersion updateKind currentEditedAt currentPollUpdatedAt
        requestedUpdateVersionMicros with
    | none => false
    | some version =>
      if requestedUpdateVersionMicros ≠ some version.timestampMicros then false
      else if updateKind.isRepair then
        decide (activityId = some
          (statusSnapshotRepairActivityId objectUri currentEditedAt currentPollUpdatedAt))
      else updateDeliveryIsCurrent activityId objectUri version requestedUpdateVersionMicros

def completeStatusUpdateDeliveryKind (updateKind : Option String) (hasCurrentPoll : Bool)
    (requestedEditedAtMicros requestedPollUpdatedAtMicros requestedUpdateVersionMicros
      publishedVersionMicros : Option ℤ) : Option StatusUpdateKind := do
  let updateKind ← StatusUpdateKind.parse (← updateKind)
  let editedAtMicros ← requestedEditedAtMicros
  if requestedPollUpdatedAtMicros.isSome ≠ hasCurrentPoll ∨
      (updateKind.hasPollReach && !hasCurrentPoll) = true ∨
      (updateKind = .statusRepair ∧ hasCurrentPoll = true) then none
  else
    let expectedUpdateVersionMicros ← match updateKind with
      | .status | .interactionPolicy | .statusRepair => some editedAtMicros
      | .poll => requestedPollUpdatedAtMicros
      | .pollRepair => requestedPollUpdatedAtMicros.map (Max.max editedAtMicros)
      | .quote => requestedUpdateVersionMicros
    if requestedUpdateVersionMicros ≠ some expectedUpdateVersionMicros ∨
        publishedVersionMicros ≠ some expectedUpdateVersionMicros then none
    else some updateKind

/-! ### Agreement -/

section Agreement

variable {currentEditedAt : NaiveDateTime} {currentPollUpdatedAt requestedEditedAt
  requestedPollUpdatedAt : Option NaiveDateTime} {updateKind : StatusUpdateKind}
  {strictSnapshot : Bool} {e v : NaiveDateTime} {p : Option NaiveDateTime}

theorem selectedEditedAt_eq (h : selectedEditedAt strictSnapshot currentEditedAt requestedEditedAt =
    some e) : e = currentEditedAt := by
  unfold selectedEditedAt at h
  split at h
  · split_ifs at h with hrequested
    exact (Option.some.inj h).symm.trans hrequested
  · split_ifs at h
    exact (Option.some.inj h).symm

theorem selectedPollUpdatedAt_eq (h : selectedPollUpdatedAt updateKind strictSnapshot
    requestedPollUpdatedAt currentPollUpdatedAt = some p) : p = currentPollUpdatedAt := by
  unfold selectedPollUpdatedAt at h
  split at h
  · split_ifs at h with hrequested
    · rw [← Option.some.inj h, hrequested]
    · exact (Option.some.inj h).symm
  · split_ifs at h
    exact (Option.some.inj h).symm
  · exact (Option.some.inj h).symm
  · cases h

/-- What is delivered is current, and its version is the one that a delivery expects. -/
theorem statusUpdateVersionDecision_deliver (h : statusUpdateVersionDecision currentEditedAt
    currentPollUpdatedAt requestedEditedAt requestedPollUpdatedAt updateKind strictSnapshot =
      .deliver e p v) (micros : Option ℤ) :
    e = currentEditedAt ∧ p = currentPollUpdatedAt ∧ updateKind ≠ .quote ∧
      expectedUpdateVersion updateKind currentEditedAt currentPollUpdatedAt micros = some v ∧
        ¬ (updateKind = .statusRepair ∧ currentPollUpdatedAt.isSome = true) := by
  rw [statusUpdateVersionDecision] at h
  split at h
  · cases h
  split at h
  swap
  · split_ifs at h
  rename_i editedAt pollUpdatedAt updateVersion hversions
  obtain ⟨rfl, rfl, rfl⟩ := StatusUpdateVersionDecision.deliver.inj h
  rw [statusUpdateVersions] at hversions
  split at hversions
  · cases hversions
  rename_i hrepair
  obtain ⟨selected, hedited, hversions⟩ := Option.bind_eq_some_iff.mp hversions
  obtain ⟨selectedPoll, hpoll, hversions⟩ := Option.bind_eq_some_iff.mp hversions
  obtain ⟨version, hversion, hversions⟩ := Option.bind_eq_some_iff.mp hversions
  obtain ⟨rfl, rfl, rfl⟩ : selected = editedAt ∧ selectedPoll = pollUpdatedAt ∧
      version = updateVersion := by
    simpa using hversions
  obtain rfl := selectedEditedAt_eq hedited
  obtain rfl := selectedPollUpdatedAt_eq hpoll
  refine ⟨rfl, rfl, ?_, ?_, hrepair⟩
  · rintro rfl
    cases hversion
  · cases updateKind with
    | quote => cases hversion
    | _ => exact hversion

/-- A delivery for other times is not current. -/
theorem statusUpdateDeliveryIsCurrent_times {activityId : Option String} {objectUri : String}
    {editedAtMicros pollUpdatedAtMicros updateVersionMicros : Option ℤ}
    (h : statusUpdateDeliveryIsCurrent updateKind activityId objectUri currentEditedAt
      currentPollUpdatedAt editedAtMicros pollUpdatedAtMicros updateVersionMicros = true) :
    editedAtMicros = some currentEditedAt.timestampMicros ∧
      pollUpdatedAtMicros = currentPollUpdatedAt.map (·.timestampMicros) := by
  rw [statusUpdateDeliveryIsCurrent] at h
  split at h
  · cases h
  rename_i htimes
  rwa [not_or, not_not, not_not] at htimes

/-- The id of the activity that is delivered. -/
def deliveredActivityId (updateKind : StatusUpdateKind) (objectUri : String) (e : NaiveDateTime)
    (p : Option NaiveDateTime) (v : NaiveDateTime) : String :=
  if updateKind.isRepair then statusSnapshotRepairActivityId objectUri e p
  else updateActivityId objectUri v

theorem statusUpdateDeliveryIsCurrent_deliver (objectUri : String)
    (hexpected : expectedUpdateVersion updateKind e p (some v.timestampMicros) = some v) :
    statusUpdateDeliveryIsCurrent updateKind (some (deliveredActivityId updateKind objectUri e p v))
      objectUri e p (some e.timestampMicros) (p.map (·.timestampMicros)) (some v.timestampMicros) =
        true := by
  rw [statusUpdateDeliveryIsCurrent, if_neg (by simp), hexpected]
  simp only [deliveredActivityId, ne_eq, not_true_eq_false, if_false]
  split_ifs
  · exact decide_eq_true rfl
  · rw [updateDeliveryIsCurrent, if_neg (by simp)]
    simp

theorem completeStatusUpdateDeliveryKind_deliver (hquote : updateKind ≠ .quote)
    (hrepair : ¬ (updateKind = .statusRepair ∧ p.isSome = true)) {micros : Option ℤ}
    (hexpected : expectedUpdateVersion updateKind e p micros = some v) :
    completeStatusUpdateDeliveryKind (some updateKind.asStr) p.isSome (some e.timestampMicros)
      (p.map (·.timestampMicros)) (some v.timestampMicros) (some v.timestampMicros) =
        some updateKind := by
  have hpoll : ¬ (updateKind.hasPollReach && !p.isSome) = true := by
    intro hpoll
    rw [Bool.and_eq_true, Bool.not_eq_true', Option.isSome_eq_false_iff, Option.isNone_iff_eq_none]
      at hpoll
    obtain ⟨hreach, rfl⟩ := hpoll
    cases updateKind with
    | poll => cases hexpected
    | pollRepair => cases hexpected
    | _ => cases hreach
  rw [completeStatusUpdateDeliveryKind]
  simp only [Option.bind_eq_bind, Option.bind_some, StatusUpdateKind.parse_asStr]
  rw [if_neg (by
    rw [Option.isSome_map, not_or, not_or, not_not]
    exact ⟨rfl, hpoll, hrepair⟩)]
  cases updateKind with
  | quote => exact absurd rfl hquote
  | poll =>
    obtain rfl : p = some v := hexpected
    simp
  | pollRepair =>
    obtain ⟨pollUpdatedAt, rfl, rfl⟩ := Option.map_eq_some_iff.mp hexpected
    simp [NaiveDateTime.timestampMicros_max]
  | _ =>
    obtain rfl := Option.some.inj hexpected
    simp

/-- CORRECT (fences): a delivery of what is distributed has its kind and is current as long as the
    columns are those that it was made from, and not when one of them differs. -/
theorem status_update_fences_agree (updateKind : StatusUpdateKind) (hquote : updateKind ≠ .quote)
    (objectUri : String) (editedAt : ℤ) (pollUpdatedAt : Option ℤ)
    (requestedEditedAt requestedPollUpdatedAt : Option NaiveDateTime) (strictSnapshot : Bool)
    (e : NaiveDateTime) (p : Option NaiveDateTime) (v : NaiveDateTime)
    (h : statusUpdateVersionDecision (.ofColumn editedAt) (pollUpdatedAt.map .ofColumn)
      requestedEditedAt requestedPollUpdatedAt updateKind strictSnapshot = .deliver e p v) :
    completeStatusUpdateDeliveryKind (some updateKind.asStr) pollUpdatedAt.isSome
        (some e.timestampMicros) (p.map (·.timestampMicros)) (some v.timestampMicros)
        (some v.timestampMicros) = some updateKind ∧
      statusUpdateDeliveryIsCurrent updateKind
        (some (deliveredActivityId updateKind objectUri e p v)) objectUri (.ofColumn editedAt)
        (pollUpdatedAt.map .ofColumn) (some e.timestampMicros) (p.map (·.timestampMicros))
        (some v.timestampMicros) = true ∧
      ∀ (editedAt' : ℤ) (pollUpdatedAt' : Option ℤ) (activityId : Option String),
        .ofColumn editedAt' ≠ e ∨ pollUpdatedAt'.map .ofColumn ≠ p →
          statusUpdateDeliveryIsCurrent updateKind activityId objectUri (.ofColumn editedAt')
            (pollUpdatedAt'.map .ofColumn) (some e.timestampMicros) (p.map (·.timestampMicros))
            (some v.timestampMicros) = false := by
  obtain ⟨rfl, rfl, -, hexpected, hrepair⟩ :=
    statusUpdateVersionDecision_deliver h (some v.timestampMicros)
  refine ⟨?_, statusUpdateDeliveryIsCurrent_deliver objectUri hexpected, ?_⟩
  · have hcomplete := completeStatusUpdateDeliveryKind_deliver hquote hrepair hexpected
    rwa [Option.isSome_map] at hcomplete
  · intro editedAt' pollUpdatedAt' activityId hdiffers
    by_contra hcurrent
    rw [Bool.not_eq_false] at hcurrent
    obtain ⟨hedited, hpoll⟩ := statusUpdateDeliveryIsCurrent_times hcurrent
    have heditedAt : editedAt = editedAt' := by simpa using hedited
    have hid : (fun t : NaiveDateTime => t.timestampMicros) ∘ NaiveDateTime.ofColumn = id :=
      funext NaiveDateTime.timestampMicros_ofColumn
    have hpollUpdatedAt : pollUpdatedAt = pollUpdatedAt' := by
      simpa only [Option.map_map, hid, Option.map_id, id_eq] using hpoll
    rw [heditedAt, hpollUpdatedAt] at hdiffers
    rcases hdiffers with hdiffers | hdiffers
    · exact hdiffers rfl
    · exact hdiffers rfl

end Agreement

/-- A poll that has been voted on behind the last edit. -/
theorem status_update_fences_agree_sample :
    completeStatusUpdateDeliveryKind (some "poll_repair") true (some 2000) (some 3000) (some 3000)
      (some 3000) = some .pollRepair :=
  (status_update_fences_agree .pollRepair (by decide) "https://local.example/statuses/1" 2000
    (some 3000) (some (.ofColumn 2000)) (some (.ofColumn 3000)) true (.ofColumn 2000)
    (some (.ofColumn 3000)) (.ofColumn 3000) (by decide)).1

end Rustodon.Worker
