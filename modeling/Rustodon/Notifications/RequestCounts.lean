import Rustodon.Notifications.Operations
import Rustodon.Schemes.Runs
import Rustodon.Schemes.Serials

/-! @src mastodon/write_repository.rs, worker.rs | name:Counts of notification requests | scheme:runs |
    family:notifications

    There is one notification of a recipient for an activity and a type, in every history. The count of
    a request is exact as long as no notifications are cleared, cleaned up or unfiltered under it: these
    three do not reconcile. The bulk dismissal records no cleanup. -/

namespace Rustodon.Notifications
open Schemes.Runs Schemes.Serials

/-- What holds in every history. -/
structure Sound (state : State) : Prop where
  notifications : Serial Notification.id Notification.key state.notifications state.nextNotificationId
  requests : Serial NotificationRequest.id NotificationRequest.pair state.requests state.nextRequestId
  cleanups : ∀ accountId fromAccountId requestId, .cleanup accountId fromAccountId requestId ∈ state.jobs →
    requestId < state.nextRequestId ∧ ∀ request ∈ state.requests, request.id ≠ requestId

variable {state state' : State}

theorem mem_recordOnce {job job' : Job} {jobs : List Job} :
    job' ∈ recordOnce job jobs ↔ job' ∈ jobs ∨ job' = job := by
  rw [recordOnce]
  split
  · rename_i hmem
    refine ⟨.inl, ?_⟩
    rintro (hjob | rfl)
    · exact hjob
    · exact hmem
  · rw [List.mem_append, List.mem_singleton]

/-! ### Every step is sound -/

theorem Sound.reconcile (h : Sound state) (accountId : ℤ) (fromAccountIds : List ℤ) :
    Sound (reconcileNotificationRequests accountId fromAccountIds state) := by
  refine ⟨h.notifications, (h.requests.filter _).map (fun request => ?_) fun request => ?_,
    fun a f id hjob => ⟨(h.cleanups a f id hjob).1, fun request hmem => ?_⟩⟩
  · split <;> rfl
  · split <;> rfl
  · obtain ⟨before, hbefore, rfl⟩ := List.mem_map.mp hmem
    have hne := (h.cleanups a f id hjob).2 before (List.mem_of_mem_filter hbefore)
    split
    · exact hne
    · exact hne

/-- Notifications and requests that are deleted. -/
theorem Sound.filter (h : Sound state) (p : Notification → Bool) (q : NotificationRequest → Bool)
    (permissions : List (ℤ × ℤ)) :
    Sound { state with
      notifications := state.notifications.filter p
      requests := state.requests.filter q
      permissions := permissions } :=
  ⟨h.notifications.filter p, h.requests.filter q, fun a f id hjob =>
    ⟨(h.cleanups a f id hjob).1, fun request hmem =>
      (h.cleanups a f id hjob).2 request (List.mem_of_mem_filter hmem)⟩⟩

theorem Sound.filterNotifications (h : Sound state) (p : Notification → Bool) :
    Sound { state with notifications := state.notifications.filter p } :=
  ⟨h.notifications.filter p, h.requests, h.cleanups⟩

theorem Sound.deleteRequests (h : Sound state) (accountId : ℤ) (requestIds : List ℤ) :
    Sound (deleteRequests accountId requestIds state) :=
  ⟨h.notifications, h.requests.filter _, fun a f id hjob =>
    ⟨(h.cleanups a f id hjob).1, fun request hmem =>
      (h.cleanups a f id hjob).2 request (List.mem_of_mem_filter hmem)⟩⟩

theorem Sound.upsert (h : Sound state) (recipientId : ℤ) (activity : ResolvedNotificationActivity) :
    Sound (upsertNotificationRequest recipientId activity state) := by
  rw [upsertNotificationRequest]
  split
  · refine ⟨h.notifications, h.requests.map (fun request => ?_) fun request => ?_,
      fun a f id hjob => ⟨(h.cleanups a f id hjob).1, fun request hmem => ?_⟩⟩
    · split <;> rfl
    · split <;> rfl
    · obtain ⟨before, hbefore, rfl⟩ := List.mem_map.mp hmem
      have hne := (h.cleanups a f id hjob).2 before hbefore
      split
      · exact hne
      · exact hne
  · rename_i hnone
    simp only [List.any_eq_true, decide_eq_true_eq, not_exists, not_and] at hnone
    refine ⟨h.notifications, Serial.insert h.requests hnone, fun a f id hjob => ?_⟩
    obtain ⟨hlt, hne⟩ := h.cleanups a f id hjob
    refine ⟨Int.lt_trans hlt (Int.lt_succ _), fun request hmem => ?_⟩
    rcases List.mem_append.mp hmem with hmem | hmem
    · exact hne request hmem
    · rw [List.mem_singleton.mp hmem]
      exact (ne_of_lt hlt).symm

theorem Sound.insert (h : Sound state) {at_ : Surroundings} {recipientId : ℤ}
    {activity : ResolvedNotificationActivity} {filtered : Bool}
    (hkey : ∀ other ∈ state.notifications, other.key ≠ keyOf recipientId activity) :
    Sound (insertNotification at_ recipientId activity filtered state).2 := by
  have hinserted : Sound (appendNotification
      (newNotification at_ recipientId activity filtered state.nextNotificationId) state) :=
    ⟨Serial.insert h.notifications hkey, h.requests, h.cleanups⟩
  rw [insertNotification]
  split
  · exact hinserted.upsert recipientId activity
  · exact hinserted

theorem Sound.admit (h : Sound state) {at_ : Surroundings} {recipientId : ℤ}
    {activity : ResolvedNotificationActivity}
    (hreplaced : replacesExisting activity.notificationType = true →
      ∀ other ∈ state.notifications, other.key ≠ keyOf recipientId activity) :
    Sound (admitNotification at_ recipientId activity state).2 := by
  rw [admitNotification]
  split
  · exact h
  · rename_i hnone
    have hkey : ∀ other ∈ state.notifications, other.key ≠ keyOf recipientId activity := by
      rw [existingNotification] at hnone
      split at hnone
      · rename_i hreplaces
        exact hreplaced hreplaces
      · intro other hother heq
        have hnot := List.find?_eq_none.mp hnone other hother
        exact hnot (decide_eq_true heq)
    split
    · exact h
    · split
      · exact h
      · exact h.insert hkey
      · exact h.insert hkey

theorem Sound.create (h : Sound state) (at_ : Surroundings) (recipientId : ℤ)
    (activity : NotificationActivity) : Sound (createNotification at_ recipientId activity state).2 := by
  rw [createNotification]
  split
  · exact h
  · rename_i resolved _
    split
    · exact h
    split
    · exact h
    · refine Sound.admit ?_ fun hreplaces other hother => ?_
      · rw [replaceExisting]
        split
        · exact h.filterNotifications _
        · exact h
      · rw [replaceExisting, if_pos hreplaces] at hother
        exact of_decide_eq_true (List.mem_filter.mp hother).2

theorem requestOf_some {accountId requestId : ℤ} {request : NotificationRequest}
    (h : requestOf accountId requestId state = some request) :
    request ∈ state.requests ∧ request.accountId = accountId ∧ request.id = requestId := by
  have hfound := List.find?_some h
  simp only [Bool.and_eq_true, decide_eq_true_eq] at hfound
  exact ⟨List.mem_of_find?_eq_some h, hfound⟩

theorem acceptNotificationRequest_ok {accountId requestId : ℤ}
    (h : acceptNotificationRequest accountId requestId state = .ok state') :
    ∃ request, requestOf accountId requestId state = some request ∧
      state' = { deleteRequests accountId [requestId] state with
        permissions := state.permissions ++ [(accountId, request.fromAccountId)]
        jobs := recordOnce (.unfilter accountId request.fromAccountId) state.jobs } := by
  rw [acceptNotificationRequest] at h
  split at h
  · cases h
  · rename_i request hrequest
    exact ⟨request, hrequest, (Except.ok.inj h).symm⟩

theorem dismissNotificationRequest_ok {accountId requestId : ℤ}
    (h : dismissNotificationRequest accountId requestId state = .ok state') :
    ∃ request, requestOf accountId requestId state = some request ∧
      state' = { deleteRequests accountId [requestId] state with
        jobs := recordOnce (.cleanup accountId request.fromAccountId requestId) state.jobs } := by
  rw [dismissNotificationRequest] at h
  split at h
  · cases h
  · rename_i request hrequest
    exact ⟨request, hrequest, (Except.ok.inj h).symm⟩

theorem dismissNotification_ok {accountId notificationId : ℤ}
    (h : dismissNotification accountId notificationId state = .ok state') :
    ∃ notification ∈ state.notifications, notification.accountId = accountId ∧
      notification.id = notificationId ∧
        state' = reconcileNotificationRequests accountId [notification.fromAccountId]
          { state with
            notifications := state.notifications.filter fun other =>
              !(decide (other.accountId = accountId) && decide (other.id = notificationId)) } := by
  rw [dismissNotification] at h
  split at h
  · cases h
  · rename_i notification hfind
    have hfound := List.find?_some hfind
    simp only [Bool.and_eq_true, decide_eq_true_eq] at hfound
    exact ⟨notification, List.mem_of_find?_eq_some hfind, hfound.1, hfound.2, (Except.ok.inj h).symm⟩

/-- Unfilter jobs are no cleanups. -/
theorem Sound.recordUnfilter (h : Sound state) {jobs : List Job} {permissions : List (ℤ × ℤ)}
    (hjobs : ∀ a f id, .cleanup a f id ∈ jobs → .cleanup a f id ∈ state.jobs) :
    Sound { state with permissions := permissions, jobs := jobs } :=
  ⟨h.notifications, h.requests, fun a f id hjob => h.cleanups a f id (hjobs a f id hjob)⟩

theorem mem_foldl_recordOnce {job : ℤ → Job} {job' : Job} {fromAccountIds : List ℤ} {jobs : List Job} :
    job' ∈ fromAccountIds.foldl (fun jobs fromAccountId => recordOnce (job fromAccountId) jobs) jobs ↔
      job' ∈ jobs ∨ ∃ fromAccountId ∈ fromAccountIds, job' = job fromAccountId := by
  induction fromAccountIds generalizing jobs with
  | nil => simp
  | cons fromAccountId fromAccountIds ih =>
    rw [List.foldl_cons, ih, mem_recordOnce, or_assoc]
    simp

theorem step_sound {op : Op} (h : Sound state) (hstep : Step state op state') : Sound state' := by
  obtain ⟨-, rfl⟩ := hstep
  rw [next]
  split
  swap
  · exact h
  rename_i after happly
  cases op with
  | createNotification at_ recipientId activity =>
    obtain rfl := Except.ok.inj happly
    exact h.create at_ recipientId activity
  | dismissNotification accountId notificationId =>
    obtain ⟨notification, -, -, -, rfl⟩ := dismissNotification_ok happly
    exact (h.filterNotifications _).reconcile _ _
  | dismissNotificationGroup accountId groupKey =>
    obtain rfl := Except.ok.inj happly
    exact (h.filterNotifications _).reconcile _ _
  | clearNotifications accountId =>
    obtain rfl := Except.ok.inj happly
    exact h.filterNotifications _
  | acceptNotificationRequest accountId requestId =>
    obtain ⟨request, -, rfl⟩ := acceptNotificationRequest_ok happly
    refine (h.deleteRequests accountId [requestId]).recordUnfilter fun a f id hjob => ?_
    exact (mem_recordOnce.mp hjob).resolve_right (by simp)
  | dismissNotificationRequest accountId requestId =>
    obtain ⟨request, hrequest, rfl⟩ := dismissNotificationRequest_ok happly
    obtain ⟨hmem, haccount, hid⟩ := requestOf_some hrequest
    have hdeleted := h.deleteRequests accountId [requestId]
    refine ⟨hdeleted.notifications, hdeleted.requests, fun a f id hjob => ?_⟩
    rcases mem_recordOnce.mp hjob with hjob | hjob
    · exact hdeleted.cleanups a f id hjob
    · obtain ⟨-, -, rfl⟩ := Job.cleanup.inj hjob
      refine ⟨hid ▸ h.requests.fresh request hmem, fun other hother heq => ?_⟩
      obtain ⟨hother, hkept⟩ := List.mem_filter.mp hother
      have hsame : other = request := h.requests.eq_of_id hother hmem (heq.trans hid.symm)
      rw [hsame, haccount, hid] at hkept
      simp at hkept
  | acceptNotificationRequests accountId requestIds rows =>
    obtain rfl := Except.ok.inj happly
    refine (h.deleteRequests accountId requestIds).recordUnfilter fun a f id hjob => ?_
    rcases mem_foldl_recordOnce.mp hjob with hjob | ⟨_, -, hjob⟩
    · exact hjob
    · cases hjob
  | dismissNotificationRequests accountId requestIds =>
    obtain rfl := Except.ok.inj happly
    exact h.deleteRequests accountId requestIds
  | unfilter accountId fromAccountId =>
    obtain rfl := Except.ok.inj happly
    refine ⟨h.notifications.map (fun notification => ?_) fun notification => ?_, h.requests, h.cleanups⟩
    · split <;> rfl
    · split <;> rfl
  | cleanup accountId fromAccountId =>
    obtain rfl := Except.ok.inj happly
    exact h.filterNotifications _
  | blockAccount accountId targetAccountId =>
    obtain rfl := Except.ok.inj happly
    exact h.filter _ _ _
  | mute accountId targetAccountId =>
    obtain rfl := Except.ok.inj happly
    exact h.filter _ _ _
  | deleteActivity recipientId activityId activityType =>
    obtain rfl := Except.ok.inj happly
    exact (h.filterNotifications _).reconcile _ _
  | deleteQuotedUpdates recipientId statusIds =>
    obtain rfl := Except.ok.inj happly
    exact (h.filterNotifications _).reconcile _ _

theorem sound_of_run {ops : List Op} (h : Run Step State.initial ops state) : Sound state :=
  h.preserves (fun _ _ _ hsound hstep => step_sound hsound hstep)
    ⟨serial_nil, serial_nil, by simp [State.initial]⟩

/-! ### Counts -/

/-- The count of a request. -/
def NotificationRequest.Counted (request : NotificationRequest) (notifications : List Notification) : Prop :=
  request.notificationsCount =
      min 100 (meaningfulCount request.accountId request.fromAccountId notifications) ∧
    0 < request.notificationsCount

def Counted (state : State) : Prop := ∀ request ∈ state.requests, request.Counted state.notifications

/-- The steps that leave requests without their notifications: none of them may meet a request. -/
def Keeps (state : State) : Op → Prop
  | .clearNotifications accountId => ∀ request ∈ state.requests, request.accountId ≠ accountId
  | .unfilter accountId fromAccountId => ∀ request ∈ state.requests, request.pair ≠ (accountId, fromAccountId)
  | .cleanup accountId fromAccountId => ∀ request ∈ state.requests, request.pair ≠ (accountId, fromAccountId)
  | _ => True

variable {accountId fromAccountId : ℤ} {notifications : List Notification} {request : NotificationRequest}

theorem meaningful_spec {notification : Notification} :
    notification.meaningful accountId fromAccountId = true ↔
      (notification.accountId = accountId ∧ notification.fromAccountId = fromAccountId) ∧
        notification.filtered = true ∧ (notification.type = .mention ∨ notification.type = .quote) := by
  simp only [Notification.meaningful, Bool.and_eq_true, decide_eq_true_eq]
  tauto

/-- Notifications that do not count are deleted. -/
theorem meaningfulCount_filter {p : Notification → Bool}
    (h : ∀ notification ∈ notifications, notification.meaningful accountId fromAccountId = true →
      p notification = true) :
    meaningfulCount accountId fromAccountId (notifications.filter p) =
      meaningfulCount accountId fromAccountId notifications := by
  rw [meaningfulCount, meaningfulCount, List.countP_filter]
  refine List.countP_congr fun notification hmem => ?_
  rw [Bool.and_eq_true]
  exact ⟨fun hcounts => hcounts.1, fun hcounts => ⟨hcounts, h notification hmem hcounts⟩⟩

theorem NotificationRequest.Counted.filter {p : Notification → Bool} (h : request.Counted notifications)
    (hkept : ∀ notification ∈ notifications,
      notification.meaningful request.accountId request.fromAccountId = true → p notification = true) :
    request.Counted (notifications.filter p) := by
  rw [Counted, meaningfulCount_filter hkept]
  exact h

/-- Reconciling counts again, where anything may have changed. -/
theorem counted_reconcile {fromAccountIds : List ℤ}
    (h : ∀ request ∈ state.requests, ¬(request.accountId = accountId ∧
      request.fromAccountId ∈ fromAccountIds) → request.Counted state.notifications) :
    Counted (reconcileNotificationRequests accountId fromAccountIds state) := by
  intro request hmem
  obtain ⟨before, hbefore, rfl⟩ := List.mem_map.mp hmem
  obtain ⟨hbefore, hcount⟩ := List.mem_filter.mp hbefore
  split
  · rename_i hpair
    simp only [hpair.1, hpair.2, decide_true, Bool.true_and, Bool.not_eq_true', decide_eq_false_iff_not]
      at hcount
    refine ⟨rfl, ?_⟩
    change 0 < min 100 (meaningfulCount before.accountId before.fromAccountId state.notifications)
    rw [hpair.1]
    omega
  · rename_i hpair
    exact h before hbefore hpair

/-- Notifications are deleted, and the requests of their senders are reconciled. -/
theorem counted_delete {p : Notification → Bool} {fromAccountIds : List ℤ} (h : Counted state)
    (hgone : ∀ notification ∈ state.notifications, p notification = false →
      notification.accountId = accountId ∧ notification.fromAccountId ∈ fromAccountIds) :
    Counted (reconcileNotificationRequests accountId fromAccountIds
      { state with notifications := state.notifications.filter p }) := by
  refine counted_reconcile fun request hmem hpair => (h request hmem).filter fun notification hnotification
    hcounts => ?_
  by_contra hnot
  obtain ⟨haccount, hfrom⟩ := hgone notification hnotification (by simpa using hnot)
  obtain ⟨⟨haccount', hfrom'⟩, -⟩ := meaningful_spec.mp hcounts
  exact hpair ⟨haccount'.symm.trans haccount, hfrom' ▸ hfrom⟩

theorem counted_upsert {recipientId : ℤ} {activity : ResolvedNotificationActivity}
    (hpos : 0 < meaningfulCount recipientId activity.fromAccountId state.notifications)
    (h : ∀ request ∈ state.requests, request.pair ≠ (recipientId, activity.fromAccountId) →
      request.Counted state.notifications) :
    Counted (upsertNotificationRequest recipientId activity state) := by
  rw [upsertNotificationRequest]
  split
  · intro request hmem
    obtain ⟨before, hbefore, rfl⟩ := List.mem_map.mp hmem
    split
    · rename_i hpair
      obtain ⟨haccount, hfrom⟩ := Prod.mk.inj hpair
      refine ⟨?_, ?_⟩
      · change min 100 _ = min 100 (meaningfulCount before.accountId before.fromAccountId _)
        rw [haccount, hfrom]
      · change 0 < min 100 _
        omega
    · rename_i hpair
      exact h before hbefore hpair
  · rename_i hnone
    simp only [List.any_eq_true, decide_eq_true_eq, not_exists, not_and] at hnone
    intro request hmem
    rcases List.mem_append.mp hmem with hmem | hmem
    · exact h request hmem (hnone request hmem)
    · rw [List.mem_singleton.mp hmem]
      refine ⟨rfl, ?_⟩
      change 0 < min 100 _
      omega

theorem counted_insert {at_ : Surroundings} {recipientId : ℤ} {activity : ResolvedNotificationActivity}
    {filtered : Bool} (h : Counted state) :
    Counted (insertNotification at_ recipientId activity filtered state).2 := by
  have hcount (accountId fromAccountId : ℤ) : meaningfulCount accountId fromAccountId
      (appendNotification (newNotification at_ recipientId activity filtered state.nextNotificationId)
        state).notifications =
      meaningfulCount accountId fromAccountId state.notifications +
        if (newNotification at_ recipientId activity filtered state.nextNotificationId).meaningful
          accountId fromAccountId then 1 else 0 := by
    rw [appendNotification, meaningfulCount, List.countP_append, List.countP_singleton]
    rfl
  rw [insertNotification]
  split
  · rename_i hcounts
    rw [Bool.and_eq_true, decide_eq_true_eq] at hcounts
    have hnew : (newNotification at_ recipientId activity filtered state.nextNotificationId).meaningful
        recipientId activity.fromAccountId = true := meaningful_spec.mpr ⟨⟨rfl, rfl⟩, hcounts⟩
    refine counted_upsert ?_ fun request hmem hpair => ?_
    · have hat := hcount recipientId activity.fromAccountId
      rw [if_pos hnew] at hat
      omega
    · have hat := hcount request.accountId request.fromAccountId
      rw [if_neg] at hat
      · rw [NotificationRequest.Counted, hat, Nat.add_zero]
        exact h request hmem
      · intro hmeaningful
        obtain ⟨⟨haccount, hfrom⟩, -⟩ := meaningful_spec.mp hmeaningful
        exact hpair (Prod.ext haccount.symm hfrom.symm)
  · rename_i hcounts
    intro request hmem
    have hat := hcount request.accountId request.fromAccountId
    rw [if_neg] at hat
    · rw [NotificationRequest.Counted, hat, Nat.add_zero]
      exact h request hmem
    · intro hmeaningful
      obtain ⟨-, hfiltered, htype⟩ := meaningful_spec.mp hmeaningful
      exact hcounts (by rw [Bool.and_eq_true, decide_eq_true_eq]; exact ⟨hfiltered, htype⟩)

theorem counted_create {at_ : Surroundings} {recipientId : ℤ} {activity : NotificationActivity}
    (h : Counted state) : Counted (createNotification at_ recipientId activity state).2 := by
  rw [createNotification]
  split
  · exact h
  rename_i resolved _
  split
  · exact h
  split
  · exact h
  have hreplaced : Counted (replaceExisting recipientId resolved state) := by
    rw [replaceExisting]
    split
    · rename_i hreplaces
      refine fun request hmem => (h request hmem).filter fun notification _ hcounts => ?_
      obtain ⟨-, -, htype⟩ := meaningful_spec.mp hcounts
      refine decide_eq_true fun heq => ?_
      have hsame : notification.type = resolved.notificationType := congrArg (·.2.2.2) heq
      rw [hsame] at htype
      rcases htype with htype | htype
      · rw [htype] at hreplaces
        cases hreplaces
      · rw [htype] at hreplaces
        cases hreplaces
    · exact h
  rw [admitNotification]
  split
  · exact hreplaced
  split
  · exact hreplaced
  split
  · exact hreplaced
  · exact counted_insert hreplaced
  · exact counted_insert hreplaced

/-- Requests that go, and notifications that none of the others counts. -/
theorem Counted.requests {p : NotificationRequest → Bool} {permissions : List (ℤ × ℤ)} {jobs : List Job}
    (h : Counted state) :
    Counted { state with
      requests := state.requests.filter p
      permissions := permissions
      jobs := jobs } :=
  fun request hmem => h request (List.mem_of_mem_filter hmem)

theorem counted_interactions {targetAccountId : ℤ} {permissions : List (ℤ × ℤ)} (h : Counted state) :
    Counted (clearAccountInteractions accountId targetAccountId { state with permissions := permissions }) := by
  intro request hmem
  obtain ⟨hmem, hpair⟩ := List.mem_filter.mp hmem
  refine (h request hmem).filter fun notification _ hcounts => decide_eq_true fun heq => ?_
  obtain ⟨⟨haccount, hfrom⟩, -⟩ := meaningful_spec.mp hcounts
  obtain ⟨haccount', hfrom'⟩ := Prod.mk.inj heq
  refine of_decide_eq_true hpair (Prod.ext ?_ ?_)
  · exact haccount.symm.trans haccount'
  · exact hfrom.symm.trans hfrom'

theorem counted_deleteActivity {about : Notification → Bool} (h : Counted state) (recipientId : ℤ) :
    Counted (deleteActivityNotifications recipientId about state) := by
  refine counted_delete h fun notification hmem hgone => ?_
  have habout : (decide (notification.accountId = recipientId) && about notification) = true := by
    simpa using hgone
  refine ⟨of_decide_eq_true (Bool.and_eq_true _ _ ▸ habout).1, ?_⟩
  exact List.mem_map_of_mem (List.mem_filter.mpr ⟨hmem, habout⟩)

theorem step_counted {op : Op} (hsound : Sound state) (h : Counted state) (hkeeps : Keeps state op)
    (hstep : Step state op state') : Counted state' := by
  obtain ⟨-, rfl⟩ := hstep
  rw [next]
  split
  swap
  · exact h
  rename_i after happly
  cases op with
  | createNotification at_ recipientId activity =>
    obtain rfl := Except.ok.inj happly
    exact counted_create h
  | dismissNotification accountId notificationId =>
    obtain ⟨notification, hmem, haccount, hid, rfl⟩ := dismissNotification_ok happly
    refine counted_delete h fun other hother hgone => ?_
    simp only [Bool.not_eq_false', Bool.and_eq_true, decide_eq_true_eq] at hgone
    have hsame := hsound.notifications.eq_of_id hother hmem (hgone.2.trans hid.symm)
    exact ⟨hgone.1, List.mem_singleton.mpr (congrArg _ hsame)⟩
  | dismissNotificationGroup accountId groupKey =>
    obtain rfl := Except.ok.inj happly
    refine counted_delete h fun other hother hgone => ?_
    simp only [Bool.not_eq_false', Bool.and_eq_true, decide_eq_true_eq] at hgone
    obtain ⟨haccount, hid⟩ := hgone
    obtain ⟨row, hrow, hid⟩ := List.mem_map.mp hid
    have hsame := hsound.notifications.eq_of_id hother (List.mem_of_mem_filter hrow) hid.symm
    exact ⟨haccount, List.mem_map.mpr ⟨row, hrow, by rw [hsame]⟩⟩
  | clearNotifications accountId =>
    obtain rfl := Except.ok.inj happly
    refine fun request hmem => (h request hmem).filter fun notification _ hcounts => decide_eq_true ?_
    rw [(meaningful_spec.mp hcounts).1.1]
    exact hkeeps request hmem
  | acceptNotificationRequest accountId requestId =>
    obtain ⟨request, -, rfl⟩ := acceptNotificationRequest_ok happly
    exact h.requests
  | dismissNotificationRequest accountId requestId =>
    obtain ⟨request, -, rfl⟩ := dismissNotificationRequest_ok happly
    exact h.requests
  | acceptNotificationRequests accountId requestIds rows =>
    obtain rfl := Except.ok.inj happly
    exact h.requests
  | dismissNotificationRequests accountId requestIds =>
    obtain rfl := Except.ok.inj happly
    exact h.requests
  | unfilter accountId fromAccountId =>
    obtain rfl := Except.ok.inj happly
    intro request hmem
    have hcount : meaningfulCount request.accountId request.fromAccountId
        (processNotificationUnfilterJob accountId fromAccountId state).notifications =
        meaningfulCount request.accountId request.fromAccountId state.notifications := by
      rw [processNotificationUnfilterJob, meaningfulCount, List.countP_map, meaningfulCount]
      refine List.countP_congr fun notification _ => ?_
      rw [Function.comp]
      split
      · rename_i hpair
        have hnot : ¬(notification.accountId = request.accountId ∧
            notification.fromAccountId = request.fromAccountId) := fun hsame =>
          hkeeps request hmem (Prod.ext (hsame.1.symm.trans hpair.1) (hsame.2.symm.trans hpair.2.1))
        rw [meaningful_spec, meaningful_spec]
        exact ⟨fun hcounts => absurd hcounts.1 hnot, fun hcounts => absurd hcounts.1 hnot⟩
      · rfl
    rw [NotificationRequest.Counted, hcount]
    exact h request hmem
  | cleanup accountId fromAccountId =>
    obtain rfl := Except.ok.inj happly
    refine fun request hmem => (h request hmem).filter fun notification hnotification hcounts =>
      decide_eq_true fun hbatch => ?_
    obtain ⟨row, hrow, hid⟩ := List.mem_map.mp (List.mem_mergeSort.mp (List.mem_of_mem_take hbatch))
    obtain ⟨hrow, hpair⟩ := List.mem_filter.mp hrow
    simp only [Bool.and_eq_true, decide_eq_true_eq] at hpair
    have hsame := hsound.notifications.eq_of_id hrow hnotification hid
    obtain ⟨⟨haccount, hfrom⟩, -⟩ := meaningful_spec.mp hcounts
    rw [hsame] at hpair
    exact hkeeps request hmem
      (Prod.ext (haccount.symm.trans hpair.1.1) (hfrom.symm.trans hpair.1.2))
  | blockAccount accountId targetAccountId =>
    obtain rfl := Except.ok.inj happly
    exact counted_interactions h
  | mute accountId targetAccountId =>
    obtain rfl := Except.ok.inj happly
    exact counted_interactions h
  | deleteActivity recipientId activityId activityType =>
    obtain rfl := Except.ok.inj happly
    exact counted_deleteActivity h recipientId
  | deleteQuotedUpdates recipientId statusIds =>
    obtain rfl := Except.ok.inj happly
    exact counted_deleteActivity h recipientId

/-! ### Bulk operations -/

/-- The single operation on one request after the other. Those that fail change nothing. -/
def acceptEach (accountId : ℤ) (requestIds : List ℤ) (state : State) : State :=
  requestIds.foldl (fun state requestId => next state (.acceptNotificationRequest accountId requestId)) state

def dismissEach (accountId : ℤ) (requestIds : List ℤ) (state : State) : State :=
  requestIds.foldl (fun state requestId => next state (.dismissNotificationRequest accountId requestId)) state

theorem mem_selectedRequests {requestIds : List ℤ} : request ∈ selectedRequests accountId requestIds state ↔
    request ∈ state.requests ∧ request.accountId = accountId ∧ request.id ∈ requestIds := by
  rw [selectedRequests, List.mem_filter, Bool.and_eq_true, decide_eq_true_eq, decide_eq_true_eq]

theorem deleteRequests_cons {requestId : ℤ} {requestIds : List ℤ} :
    (deleteRequests accountId requestIds (deleteRequests accountId [requestId] state)).requests =
      (deleteRequests accountId (requestId :: requestIds) state).requests := by
  rw [deleteRequests, deleteRequests, deleteRequests]
  dsimp only
  rw [List.filter_filter]
  refine List.filter_congr fun request _ => ?_
  by_cases haccount : request.accountId = accountId
  · by_cases hid : request.id = requestId
    · simp [haccount, hid]
    · simp [haccount, hid]
  · simp [haccount]

/-- What a list of ids selects when the first of them is that of a request. -/
theorem selectedRequests_cons (h : Sound state) (requestIds : List ℤ) {requestId : ℤ}
    (hrequest : requestOf accountId requestId state = some request) :
    (selectedRequests accountId (requestId :: requestIds) state).Perm
      (request :: selectedRequests accountId requestIds (deleteRequests accountId [requestId] state)) := by
  obtain ⟨hmem, haccount, hid⟩ := requestOf_some hrequest
  have hrest {other : NotificationRequest} :
      other ∈ selectedRequests accountId requestIds (deleteRequests accountId [requestId] state) ↔
        other ∈ selectedRequests accountId requestIds state ∧ other.id ≠ requestId := by
    rw [mem_selectedRequests, mem_selectedRequests, deleteRequests, List.mem_filter]
    simp only [List.mem_singleton, Bool.not_eq_true', Bool.and_eq_false_iff, decide_eq_false_iff_not]
    tauto
  refine (List.perm_ext_iff_of_nodup (h.requests.nodup.filter _) ?_).mpr fun other => ?_
  · refine List.nodup_cons.mpr ⟨fun hother => (hrest.mp hother).2 hid, ?_⟩
    exact (h.requests.nodup.filter _).filter _
  · change other ∈ selectedRequests accountId (requestId :: requestIds) state ↔ _
    rw [List.mem_cons, hrest, mem_selectedRequests, mem_selectedRequests, List.mem_cons]
    constructor
    · rintro ⟨hother, haccount', hid'⟩
      by_cases heq : other.id = requestId
      · exact .inl (h.requests.eq_of_id hother hmem (heq.trans hid.symm))
      · exact .inr ⟨⟨hother, haccount', hid'.resolve_left heq⟩, heq⟩
    · rintro (rfl | ⟨⟨hother, haccount', hid'⟩, -⟩)
      · exact ⟨hmem, haccount, .inl hid⟩
      · exact ⟨hother, haccount', .inr hid'⟩

theorem selectedRequests_unknown (requestIds : List ℤ) {requestId : ℤ}
    (hrequest : requestOf accountId requestId state = none) :
    selectedRequests accountId (requestId :: requestIds) state = selectedRequests accountId requestIds state ∧
      (deleteRequests accountId (requestId :: requestIds) state).requests =
        (deleteRequests accountId requestIds state).requests := by
  have hnone : ∀ request ∈ state.requests, request.accountId = accountId → request.id ≠ requestId := by
    intro request hmem haccount hid
    have hnot := List.find?_eq_none.mp hrequest request hmem
    simp [haccount, hid] at hnot
  refine ⟨List.filter_congr fun request hmem => ?_, List.filter_congr fun request hmem => ?_⟩
  · by_cases haccount : request.accountId = accountId
    · simp [haccount, hnone request hmem haccount]
    · simp [haccount]
  · by_cases haccount : request.accountId = accountId
    · simp [haccount, hnone request hmem haccount]
    · simp [haccount]

/-- Handling requests one by one, each of which is deleted and recorded once, deletes and records those
    that are selected. By induction on the ids; what a step leaves is sound again. -/
theorem handleEach_spec {op : ℤ → Op} {grants : NotificationRequest → List (ℤ × ℤ)}
    {job : NotificationRequest → Job} (henabled : ∀ state requestId, (op requestId).Enabled state)
    (hunknown : ∀ state requestId, requestOf accountId requestId state = none →
      next state (op requestId) = state)
    (hknown : ∀ state requestId request, requestOf accountId requestId state = some request →
      next state (op requestId) = { deleteRequests accountId [requestId] state with
        permissions := state.permissions ++ grants request
        jobs := recordOnce (job request) state.jobs })
    {requestIds : List ℤ} (h : Sound state) :
    let handled := requestIds.foldl (fun state requestId => next state (op requestId)) state
    handled.requests = (deleteRequests accountId requestIds state).requests ∧
      handled.notifications = state.notifications ∧
      (∃ granted, handled.permissions = state.permissions ++ granted ∧
        granted.Perm ((selectedRequests accountId requestIds state).flatMap grants)) ∧
      ∀ job', job' ∈ handled.jobs ↔ job' ∈ state.jobs ∨
        ∃ request ∈ selectedRequests accountId requestIds state, job' = job request := by
  induction requestIds generalizing state with
  | nil => simp [deleteRequests, selectedRequests]
  | cons requestId requestIds ih =>
    have hstep : Step state (op requestId) (next state (op requestId)) := ⟨henabled state requestId, rfl⟩
    have hih := ih (step_sound h hstep)
    simp only [List.foldl_cons] at hih ⊢
    cases hrequest : requestOf accountId requestId state with
    | none =>
      obtain ⟨hselected, hdeleted⟩ := selectedRequests_unknown requestIds hrequest
      rw [hunknown state requestId hrequest] at hih ⊢
      rw [hselected, hdeleted]
      exact hih
    | some request =>
      have hperm := selectedRequests_cons h requestIds hrequest
      rw [hknown state requestId request hrequest] at hih ⊢
      obtain ⟨hrequests, hnotifications, ⟨granted, hpermissions, hgranted⟩, hjobs⟩ := hih
      refine ⟨hrequests.trans deleteRequests_cons, hnotifications,
        ⟨grants request ++ granted, hpermissions.trans (List.append_assoc _ _ _), ?_⟩, fun job' => ?_⟩
      · exact ((List.Perm.refl _).append hgranted).trans (hperm.flatMap_right grants).symm
      · rw [hjobs job']
        dsimp only
        rw [mem_recordOnce, or_assoc]
        refine or_congr_right ?_
        constructor
        · rintro (rfl | ⟨other, hother, rfl⟩)
          · exact ⟨request, hperm.mem_iff.mpr List.mem_cons_self, rfl⟩
          · exact ⟨other, hperm.mem_iff.mpr (List.mem_cons_of_mem _ hother), rfl⟩
        · rintro ⟨other, hother, rfl⟩
          rcases List.mem_cons.mp (hperm.mem_iff.mp hother) with rfl | hother
          · exact .inl rfl
          · exact .inr ⟨other, hother, rfl⟩

theorem acceptEach_spec {accountId : ℤ} {requestIds : List ℤ} (h : Sound state) :
    ((acceptEach accountId requestIds state).requests = (deleteRequests accountId requestIds state).requests ∧
      (acceptEach accountId requestIds state).notifications = state.notifications) ∧
    (acceptEach accountId requestIds state).permissions.Perm (state.permissions ++
      (selectedRequests accountId requestIds state).map fun request => (accountId, request.fromAccountId)) ∧
    ∀ job, job ∈ (acceptEach accountId requestIds state).jobs ↔ job ∈ state.jobs ∨
      ∃ request ∈ selectedRequests accountId requestIds state,
        job = .unfilter accountId request.fromAccountId := by
  obtain ⟨hrequests, hnotifications, ⟨granted, hpermissions, hgranted⟩, hjobs⟩ :=
    @handleEach_spec state accountId (.acceptNotificationRequest accountId)
      (fun request => [(accountId, request.fromAccountId)])
      (fun request => .unfilter accountId request.fromAccountId) (fun _ _ => trivial)
      (fun state requestId hrequest => by simp [next, Op.apply, acceptNotificationRequest, hrequest])
      (fun state requestId request hrequest => by
        simp [next, Op.apply, acceptNotificationRequest, hrequest])
      requestIds h
  refine ⟨⟨hrequests, hnotifications⟩, ?_, hjobs⟩
  rw [acceptEach, hpermissions, List.map_eq_flatMap]
  exact (List.Perm.refl _).append hgranted

theorem dismissEach_spec {requestIds : List ℤ} (h : Sound state) :
    ((dismissEach accountId requestIds state).requests = (deleteRequests accountId requestIds state).requests ∧
      (dismissEach accountId requestIds state).notifications = state.notifications ∧
      (dismissEach accountId requestIds state).permissions = state.permissions) ∧
    ∀ job, job ∈ (dismissEach accountId requestIds state).jobs ↔ job ∈ state.jobs ∨
      ∃ request ∈ selectedRequests accountId requestIds state,
        job = .cleanup accountId request.fromAccountId request.id := by
  obtain ⟨hrequests, hnotifications, ⟨granted, hpermissions, hgranted⟩, hjobs⟩ :=
    @handleEach_spec state accountId (.dismissNotificationRequest accountId) (fun _ => [])
      (fun request => .cleanup accountId request.fromAccountId request.id) (fun _ _ => trivial)
      (fun state requestId hrequest => by simp [next, Op.apply, dismissNotificationRequest, hrequest])
      (fun state requestId request hrequest => by
        simp [next, Op.apply, dismissNotificationRequest, hrequest, deleteRequests,
          (requestOf_some hrequest).2.2])
      requestIds h
  refine ⟨⟨hrequests, hnotifications, ?_⟩, hjobs⟩
  have hnil : granted = [] := List.perm_nil.mp (by rwa [List.flatMap_eq_nil_iff.mpr fun _ _ => rfl] at hgranted)
  rw [dismissEach, hpermissions, hnil, List.append_nil]

theorem accept_agrees {requestIds : List ℤ} {rows : List NotificationRequest} (h : Sound state)
    (hrows : rows.Perm (selectedRequests accountId requestIds state)) :
    let single := acceptEach accountId requestIds state
    let bulk := acceptNotificationRequests accountId requestIds rows state
    (single.requests = bulk.requests ∧ single.notifications = bulk.notifications) ∧
      single.permissions.Perm bulk.permissions ∧ ∀ job, job ∈ single.jobs ↔ job ∈ bulk.jobs := by
  obtain ⟨hsame, hpermissions, hjobs⟩ := acceptEach_spec h
  refine ⟨hsame, hpermissions.trans ((List.Perm.refl _).append (hrows.map _).symm), fun job => ?_⟩
  rw [hjobs job, acceptNotificationRequests]
  dsimp only
  rw [mem_foldl_recordOnce]
  refine or_congr_right ?_
  simp only [List.mem_map, exists_exists_and_eq_and, hrows.mem_iff]

/-- The bulk dismissal records no job, so it agrees with the single one only where there is nothing to
    dismiss. -/
theorem dismiss_agrees {requestIds : List ℤ} (h : Sound state) :
    let single := dismissEach accountId requestIds state
    let bulk := dismissNotificationRequests accountId requestIds state
    (single.requests = bulk.requests ∧ single.notifications = bulk.notifications ∧
        single.permissions = bulk.permissions) ∧
      ((∀ job, job ∈ single.jobs ↔ job ∈ bulk.jobs) ↔
        ∀ request ∈ state.requests, request.accountId = accountId → request.id ∉ requestIds) := by
  obtain ⟨hsame, hjobs⟩ := dismissEach_spec h
  refine ⟨hsame, ?_⟩
  have hbulk : (dismissNotificationRequests accountId requestIds state).jobs = state.jobs := rfl
  simp only [hbulk]
  constructor
  · intro hagree request hmem haccount hid
    have hjob := (hagree _).mp ((hjobs (.cleanup accountId request.fromAccountId request.id)).mpr
      (.inr ⟨request, mem_selectedRequests.mpr ⟨hmem, haccount, hid⟩, rfl⟩))
    exact (h.cleanups _ _ _ hjob).2 request hmem rfl
  · intro hnone job
    rw [hjobs job]
    refine ⟨fun hjob => hjob.resolve_right ?_, .inl⟩
    rintro ⟨request, hselected, -⟩
    obtain ⟨hmem, haccount, hid⟩ := mem_selectedRequests.mp hselected
    exact hnone request hmem haccount hid

/-! ### Histories -/

theorem counted_of_run {ops : List Op}
    (h : Run (fun state op state' => Keeps state op ∧ Step state op state') State.initial ops state) :
    Counted state := by
  have hboth : Sound state ∧ Counted state := by
    refine h.preserves (P := fun state => Sound state ∧ Counted state) ?_ ?_
    · rintro before op after ⟨hsound, hcounted⟩ ⟨hkeeps, hstep⟩
      exact ⟨step_sound hsound hstep, step_counted hsound hcounted hkeeps hstep⟩
    · exact ⟨sound_of_run .nil, by simp [Counted, State.initial]⟩
  exact hboth.2

/-- A sender who is not followed, and whose mentions are filtered. -/
def strangerMentions : Surroundings where
  row := some ⟨2, 1, 10⟩
  senderAvailable := true
  recipientHasUser := true
  recipientSuspended := false
  facts := ⟨false, true, false, false, false, false, false, 1, 0, 0, 1, 0, 1⟩
  blocked := false
  groupKey := none

def mentioned : State := next State.initial (.createNotification strangerMentions 1 (.mention 5))

theorem mentioned_run : Run (fun state op state' => Keeps state op ∧ Step state op state') State.initial
    [.createNotification strangerMentions 1 (.mention 5)] mentioned :=
  .cons ⟨trivial, trivial, rfl⟩ .nil

end Rustodon.Notifications
