import Rustodon.Timelines.Disclosure
import Rustodon.Timelines.HomeStream

/-! @src mastodon/write_repository.rs, mastodon/repository.rs | name:Agreement of home streams and timelines |
    scheme:union | family:timelines

    What both queries ask of those who follow an author is brought out first. The rest is where they part:
    the stream forgets a mute when it runs out and takes the author of a boosted status as it finds it,
    the timeline knows every mute until its row is gone and drops the boosts of what has been deleted. -/

namespace Rustodon.Timelines

section Conditions

variable (db : Database)

/-- What both queries ask of one who follows the author, mutes apart. -/
def sharedConditions (viewer : ℤ) (status : Status) (author : Account) (follow : Follow) : Bool :=
  (status.visibleAs [0, 1, 2] || (status.visibleAs [3, 4] && db.isMentioning status.id viewer)) &&
    (status.reblogOfId.isNone || follow.showReblogs) &&
    !db.isBlocking status.accountId viewer && !db.isBlocking viewer status.accountId &&
    languageAllowed follow.languages status.language && replyKnown status &&
    (!status.reply || status.repliesTo status.accountId || status.repliesTo viewer ||
      status.inReplyToAccountId.any fun accountId => db.isFollowing viewer accountId) &&
    !onExclusiveList db viewer status.accountId &&
    !(mentionedAloud db status).any (db.isBlocking viewer) &&
    !((boostedStatus db status).any fun source => db.isBlocking viewer source.accountId) &&
    !((boostedStatus db status).any fun source => db.isBlocking source.accountId viewer) &&
    !db.isDomainBlocking viewer ((boostedAuthor db status).bind Account.domain) &&
    !db.isDomainBlocking viewer author.domain

/-- The author, somebody who is mentioned or the author of the boosted status is muted. -/
def isMuted (mutes : ℤ → Bool) (status : Status) : Bool :=
  mutes status.accountId || (mentionedAloud db status).any mutes ||
    (boostedStatus db status).any fun source => mutes source.accountId

/-- What is boosted is still there. -/
def sourceLive (status : Status) : Bool := status.reblogOfId.isNone || (liveSource db status).isSome

/-- A viewer who follows the author and satisfies the conditions of both queries mutes nobody by a mute
    that has run out, and what is boosted is still there; or else an unexpired mute or a hashtag settles
    the matter. -/
def Settled (now viewer : ℤ) (status : Status) (author : Account) : Prop :=
  ∀ follow, db.follow viewer status.accountId = some follow → status.accountId ≠ viewer →
    sharedConditions db viewer status author follow = true →
      homeTagged db viewer status author = false →
        isMuted db (db.isMutingAt now viewer) status = false →
          isMuted db (db.isMuting viewer) status = false ∧ sourceLive db status = true

end Conditions

variable {db : Database} {now viewer accountId : ℤ} {status : Status} {author : Account} {follow : Follow}

/-! ### Boosted statuses -/

theorem boostedStatus_of_none (h : status.reblogOfId = none) : boostedStatus db status = none := by
  rw [boostedStatus, h]
  rfl

theorem liveSource_of_none (h : status.reblogOfId = none) : liveSource db status = none := by
  rw [liveSource, h]
  rfl

/-- A boosted status that is live is the one that the stream looks at. -/
theorem liveSource_eq (h : sourceLive db status = true) :
    liveSource db status = boostedStatus db status := by
  cases hreblog : status.reblogOfId with
  | none => rw [liveSource_of_none hreblog, boostedStatus_of_none hreblog]
  | some sourceId =>
    simp only [sourceLive, hreblog, Option.isNone_some, Bool.false_or, Option.isSome_iff_exists] at h
    obtain ⟨source, hsource⟩ := h
    rw [hsource]
    rw [liveSource, hreblog, Option.bind_some, Option.filter_eq_some_iff] at hsource
    rw [boostedStatus, hreblog, Option.bind_some, hsource.1]

theorem sourceAuthor_eq (h : sourceLive db status = true) :
    sourceAuthor db status = boostedAuthor db status := by
  rw [sourceAuthor, boostedAuthor, liveSource_eq h]

/-- Neither of them finds a suspended author if there is none. -/
theorem sourceNotSuspended_of_boosted
    (h : ∀ boosted, boostedAuthor db status = some boosted → boosted.suspendedAt = none) :
    sourceNotSuspended db status = true := by
  cases hsource : liveSource db status with
  | none => simp [sourceNotSuspended, hsource]
  | some source =>
    have hlive : sourceLive db status = true := by simp [sourceLive, hsource]
    cases hauthor : boostedAuthor db status with
    | none => simp [sourceNotSuspended, sourceAuthor_eq hlive, hauthor]
    | some boosted => simp [sourceNotSuspended, sourceAuthor_eq hlive, hauthor, h boosted hauthor]

/-! ### Those who follow the author -/

theorem any_or {p q : ℤ → Bool} {l : List ℤ} : (l.any fun a => p a || q a) = (l.any p || l.any q) := by
  induction l with
  | nil => rfl
  | cons a l ih => simp only [List.any_cons, ih, Bool.or_assoc, Bool.or_left_comm]

/-- The stream tells those who satisfy the shared conditions and mute nobody any longer. -/
theorem isFollowRecipient_iff (hother : status.accountId ≠ follow.accountId)
    (htarget : follow.targetAccountId = status.accountId)
    (hrecipient : isRecipient db follow.accountId = true) :
    isFollowRecipient db now false status author follow = true ↔
      sharedConditions db follow.accountId status author follow = true ∧
        isMuted db (db.isMutingAt now follow.accountId) status = false := by
  have hsource : (status.reblogOfId.isNone ||
      streamSourceAllowed db now follow.accountId status) =
        streamSourceAllowed db now follow.accountId status := by
    cases hreblog : status.reblogOfId with
    | none => simp [streamSourceAllowed, boostedAuthor, boostedStatus_of_none hreblog,
        Database.isDomainBlocking]
    | some _ => rfl
  simp only [isFollowRecipient, Bool.false_and, Bool.false_or, hsource, hrecipient, htarget,
    decide_true, Bool.true_and, Bool.and_true, decide_eq_false hother]
  simp only [streamMentionsAllowed, any_or, streamSourceAllowed, sharedConditions, isMuted,
    Bool.and_eq_true, Bool.not_eq_true', Bool.or_eq_false_iff]
  tauto

theorem isRecipient_local (h : isRecipient db accountId = true) : LocalViewer db (some accountId) := by
  intro viewer hviewer
  obtain rfl := Option.some.inj hviewer
  obtain ⟨account, haccount, hlocal⟩ := (Option.any_eq_true _ _).mp (Bool.and_eq_true_iff.mp h).1
  exact ⟨account, haccount, by simpa using (Bool.and_eq_true_iff.mp hlocal).1⟩

theorem openToViewer_local (h : LocalViewer db (some viewer)) :
    openToViewer db viewer status = !db.isBlocking status.accountId viewer := by
  rw [openToViewer, h.domain]
  simp [Database.isDomainBlocking]

/-- Those who follow the author are authorized by the shared conditions. -/
theorem homeAuthorized_of_shared (hlive : status.deletedAt = none) (hsuspended : author.suspendedAt = none)
    (hsource : sourceNotSuspended db status = true) (hlocal : LocalViewer db (some viewer))
    (hfollow : db.follow viewer status.accountId = some follow)
    (h : sharedConditions db viewer status author follow = true) :
    homeAuthorized db viewer status author = true := by
  simp only [sharedConditions, Bool.and_eq_true, Bool.or_eq_true, visibleAs_iff, List.mem_cons,
    List.not_mem_nil, or_false] at h
  obtain ⟨⟨⟨⟨⟨⟨⟨⟨⟨⟨⟨⟨hvisible, -⟩, hblocked⟩, -⟩, -⟩, -⟩, -⟩, -⟩, -⟩, -⟩, -⟩, -⟩, -⟩ := h
  simp only [homeAuthorized, hlive, hsuspended, hsource, Option.isNone_none, Bool.true_and, hfollow,
    Option.isSome_some, Bool.true_or, openToViewer_local hlocal, hblocked, visibleAs_iff, List.mem_cons,
    List.not_mem_nil, or_false]
  split_ifs with hown hclosed hprivate hopen
  · rfl
  · exact (hvisible.resolve_left (by omega)).2
  · rfl
  · rfl
  · omega

/-- The timeline shows what satisfies the shared conditions while nobody is muted. -/
theorem homeFollowed_iff (hother : status.accountId ≠ viewer)
    (hfollow : db.follow viewer status.accountId = some follow) :
    homeFollowed db viewer status author = true ↔
      sharedConditions db viewer status author follow = true ∧
        isMuted db (db.isMuting viewer) status = false ∧ sourceLive db status = true := by
  by_cases hlive : sourceLive db status = true
  · have hallowed : sourceAllowed db viewer status =
        (!((boostedStatus db status).any fun source => db.isBlocking viewer source.accountId) &&
          !((boostedStatus db status).any fun source => db.isMuting viewer source.accountId) &&
          !((boostedStatus db status).any fun source => db.isBlocking source.accountId viewer) &&
          !db.isDomainBlocking viewer ((boostedAuthor db status).bind Account.domain)) := by
      rw [sourceAllowed, liveSource_eq hlive, sourceAuthor_eq hlive]
      cases hsource : boostedStatus db status with
      | none => simp [boostedAuthor, hsource, Database.isDomainBlocking]
      | some source => simp
    have hshown : (status.reblogOfId.isNone ||
        ((liveSource db status).isSome && follow.showReblogs)) =
          (status.reblogOfId.isNone || follow.showReblogs) := by
      rw [sourceLive] at hlive
      cases hnone : status.reblogOfId.isNone <;> simp_all
    simp only [homeFollowed, hfollow, Option.isSome_some, Option.bind_some, Option.any_some,
      decide_eq_false hother, Bool.false_or, Bool.true_and, hshown, hallowed, mentionsAllowed, any_or,
      sharedConditions, isMuted, onExclusiveList, hlive, Bool.and_eq_true, Bool.not_eq_true',
      Bool.or_eq_false_iff]
    tauto
  · have hgone : (status.reblogOfId.isNone || ((liveSource db status).isSome && follow.showReblogs)) =
        false := by
      simp only [sourceLive, Bool.not_eq_true, Bool.or_eq_false_iff] at hlive
      simp [hlive.1, hlive.2]
    simp [homeFollowed, hfollow, hother, hgone, hlive]

/-- The hashtags of a status bring it to the same accounts. -/
theorem isTagRecipient_iff (hother : status.accountId ≠ viewer) (hlive : status.deletedAt = none)
    (hsuspended : author.suspendedAt = none) (hsource : sourceNotSuspended db status = true)
    (hrecipient : isRecipient db viewer = true) :
    isTagRecipient db false status author viewer = true ↔
      homeAuthorized db viewer status author = true ∧ homeTagged db viewer status author = true := by
  have hopen : openToViewer db viewer status = !db.isBlocking status.accountId viewer :=
    openToViewer_local (isRecipient_local hrecipient)
  by_cases hpublic : status.visibility = 0
  · simp only [isTagRecipient, homeAuthorized, homeTagged, hrecipient, hlive, hsuspended, hsource,
      hopen, hpublic, hother, Status.visibleAs]
    simp
    tauto
  · have hvisible : status.visibleAs [0] = false := by simp [Status.visibleAs, hpublic]
    simp [isTagRecipient, homeTagged, hvisible]

/-! ### Updates -/

theorem follow_eq_some {targetAccountId : ℤ} : db.follow accountId targetAccountId = some follow ↔
    follow ∈ db.follows ∧ follow.accountId = accountId ∧ follow.targetAccountId = targetAccountId := by
  constructor
  · intro h
    have hkey := List.find?_some h
    simp only [Bool.and_eq_true, decide_eq_true_eq] at hkey
    exact ⟨List.mem_of_find?_eq_some h, hkey⟩
  · rintro ⟨hfollow, rfl, rfl⟩
    cases hfind : db.follow follow.accountId follow.targetAccountId with
    | none => simpa using List.find?_eq_none.mp hfind follow hfollow
    | some other =>
      have hkey := List.find?_some hfind
      simp only [Bool.and_eq_true, decide_eq_true_eq] at hkey
      rw [List.inj_on_of_nodup_map db.follow_keys (List.mem_of_find?_eq_some hfind) hfollow
        (Prod.ext hkey.1 hkey.2)]

theorem follow_recipient_iff (hother : status.accountId ≠ viewer) (hrecipient : isRecipient db viewer = true) :
    (∃ follow ∈ db.follows, isFollowRecipient db now false status author follow = true ∧
      follow.accountId = viewer) ↔
        ∃ follow, db.follow viewer status.accountId = some follow ∧
          sharedConditions db viewer status author follow = true ∧
            isMuted db (db.isMutingAt now viewer) status = false := by
  constructor
  · rintro ⟨follow, hfollow, h, rfl⟩
    have htarget : follow.targetAccountId = status.accountId := by
      simp only [isFollowRecipient, Bool.and_eq_true, decide_eq_true_eq] at h
      exact h.1.1.1.1.1.1.1.1.1.1.1.1.1
    exact ⟨follow, follow_eq_some.mpr ⟨hfollow, rfl, htarget⟩,
      (isFollowRecipient_iff hother htarget hrecipient).mp h⟩
  · rintro ⟨follow, hfound, h⟩
    obtain ⟨hfollow, rfl, htarget⟩ := follow_eq_some.mp hfound
    exact ⟨follow, hfollow, (isFollowRecipient_iff hother htarget hrecipient).mpr h, rfl⟩

theorem isMuting_of_isMutingAt {targetAccountId : ℤ} (h : db.isMutingAt now accountId targetAccountId = true) :
    db.isMuting accountId targetAccountId = true := by
  obtain ⟨mute, hmute, hkey⟩ := List.any_eq_true.mp h
  exact List.any_eq_true.mpr ⟨mute, hmute, (Bool.and_eq_true_iff.mp hkey).1⟩

theorem isMuted_mono {p q : ℤ → Bool} (h : ∀ id, p id = true → q id = true)
    (hmuted : isMuted db p status = true) : isMuted db q status = true := by
  simp only [isMuted, Bool.or_eq_true, List.any_eq_true, Option.any_eq_true] at hmuted ⊢
  rcases hmuted with (hauthor | ⟨id, hid, hp⟩) | ⟨source, hsource, hp⟩
  · exact .inl (.inl (h _ hauthor))
  · exact .inl (.inr ⟨id, hid, h _ hp⟩)
  · exact .inr ⟨source, hsource, h _ hp⟩

/-- Who is not muted at all is not muted now. -/
theorem isMuted_now (h : isMuted db (db.isMuting viewer) status = false) :
    isMuted db (db.isMutingAt now viewer) status = false := by
  by_contra hmuted
  rw [Bool.not_eq_false] at hmuted
  rw [isMuted_mono (fun id => isMuting_of_isMutingAt) hmuted] at h
  cases h

theorem inHomeTimeline_iff (hauthor : db.account status.accountId = some author) :
    inHomeTimeline db viewer status = true ↔ homeAuthorized db viewer status author = true ∧
      (homeFollowed db viewer status author = true ∨ homeTagged db viewer status author = true) := by
  rw [inHomeTimeline, hauthor, Option.any_some, Bool.and_eq_true, Bool.or_eq_true]

theorem homeFollowed_of_no_follow (hother : status.accountId ≠ viewer)
    (h : db.follow viewer status.accountId = none) : homeFollowed db viewer status author = false := by
  simp [homeFollowed, hother, h]

/-- The stream and the timeline agree on a status when the relationship is settled. -/
theorem update_agrees_iff (hstatus : status ∈ db.statuses) (hlive : status.deletedAt = none)
    (hauthor : db.account status.accountId = some author) (hsuspended : author.suspendedAt = none)
    (hsource : sourceNotSuspended db status = true) (hrecipient : isRecipient db viewer = true) :
    (viewer ∈ statusRecipients db now false status.id ↔ inHomeTimeline db viewer status = true) ↔
      Settled db now viewer status author := by
  rw [mem_statusRecipients hstatus hauthor]
  by_cases hown : status.accountId = viewer
  · have hhome : inHomeTimeline db viewer status = true :=
      inHomeTimeline_own hown hlive (hown ▸ hauthor) hsuspended hsource
    have hsettled : Settled db now viewer status author := fun _ _ hother => absurd hown hother
    simp [hown, hrecipient, hhome, hsettled]
  · rw [inHomeTimeline_iff hauthor, follow_recipient_iff hown hrecipient,
      isTagRecipient_iff hown hlive hsuspended hsource hrecipient]
    cases hfollow : db.follow viewer status.accountId with
    | none =>
      have hsettled : Settled db now viewer status author := by
        intro follow hfound
        rw [hfollow] at hfound
        cases hfound
      simp [Ne.symm hown, homeFollowed_of_no_follow hown hfollow, hsettled]
    | some follow =>
      have hauthorized := homeAuthorized_of_shared hlive hsuspended hsource
        (isRecipient_local hrecipient) hfollow
      have hmutes : isMuted db (db.isMuting viewer) status = false →
          isMuted db (db.isMutingAt now viewer) status = false := isMuted_now
      have hsettled : Settled db now viewer status author ↔
          (sharedConditions db viewer status author follow = true →
            homeTagged db viewer status author = false →
              isMuted db (db.isMutingAt now viewer) status = false →
                isMuted db (db.isMuting viewer) status = false ∧ sourceLive db status = true) := by
        constructor
        · exact fun h => h follow hfollow hown
        · intro h other hother _
          obtain rfl := Option.some.inj (hfollow.symm.trans hother)
          exact h
      rw [hsettled, homeFollowed_iff hown hfollow]
      simp only [Ne.symm hown, false_and, false_or, Option.some.injEq, exists_eq_left']
      cases htagged : homeTagged db viewer status author <;> simp <;> tauto

/-! ### Deletions -/

/-- A status that is marked as deleted, or as live. -/
def Status.markedBy (f : Status → Option ℤ) (status : Status) : Status :=
  { status with deletedAt := f status }

/-- What a deletion leaves for those who are told of it: rows of statuses with other marks, fewer pins,
    and other media. -/
def Database.discard (db : Database) (f : Status → Option ℤ) (pins : StatusPin → Bool)
    (media : List MediaAttachment) : Database :=
  { db with
    statuses := db.statuses.map (Status.markedBy f)
    statusPins := db.statusPins.filter pins
    mediaAttachments := media
    status_ids := by
      rw [List.map_map]
      exact db.status_ids
    pin_keys := db.pin_keys.sublist (List.filter_sublist.map _) }

variable {f : Status → Option ℤ} {pins : StatusPin → Bool} {media : List MediaAttachment}

theorem status_discard (id : ℤ) :
    (db.discard f pins media).status id = (db.status id).map (Status.markedBy f) := by
  rw [Database.status, Database.status, Database.discard, List.find?_map]
  rfl

theorem boostedStatus_discard : boostedStatus (db.discard f pins media) (status.markedBy f) =
    (boostedStatus db status).map (Status.markedBy f) := by
  rw [boostedStatus, boostedStatus]
  cases hreblog : status.reblogOfId with
  | none => simp [Status.markedBy, hreblog]
  | some sourceId => simpa [Status.markedBy, hreblog] using status_discard sourceId

theorem boostedAuthor_discard :
    boostedAuthor (db.discard f pins media) (status.markedBy f) = boostedAuthor db status := by
  rw [boostedAuthor, boostedAuthor, boostedStatus_discard]
  cases boostedStatus db status <;> rfl

theorem any_discard (p : ℤ → Bool) :
    ((boostedStatus (db.discard f pins media) (status.markedBy f)).any fun source => p source.accountId) =
      (boostedStatus db status).any fun source => p source.accountId := by
  rw [boostedStatus_discard]
  cases boostedStatus db status <;> rfl

theorem sharedConditions_discard : sharedConditions (db.discard f pins media) viewer (status.markedBy f) author
    follow = sharedConditions db viewer status author follow := by
  rw [sharedConditions, boostedAuthor_discard, any_discard fun id => Database.isBlocking _ viewer id,
    any_discard fun id => Database.isBlocking _ id viewer]
  rfl

theorem isMuted_discard {mutes : ℤ → Bool} :
    isMuted (db.discard f pins media) mutes (status.markedBy f) = isMuted db mutes status := by
  rw [isMuted, any_discard mutes]
  rfl

/-- Those who see a status on their home timelines are told when it is deleted. -/
theorem delete_reaches (hstatus : status ∈ db.statuses) (hauthor : db.account status.accountId = some author)
    (hrecipient : isRecipient db viewer = true) (h : inHomeTimeline db viewer status = true) :
    viewer ∈ deleteRecipients (db.discard f pins media) now status.id := by
  have hmarked : status.markedBy f ∈ (db.discard f pins media).statuses := List.mem_map_of_mem hstatus
  refine List.mem_append_left _ ?_
  refine (mem_statusRecipients hmarked hauthor).mpr ?_
  by_cases hown : status.accountId = viewer
  · exact .inl ⟨hown.symm, hrecipient⟩
  · obtain ⟨hauthorized, hfollowed | htagged⟩ := (inHomeTimeline_iff hauthor).mp h
    · right; left
      cases hfollow : db.follow viewer status.accountId with
      | none =>
        rw [homeFollowed_of_no_follow hown hfollow] at hfollowed
        cases hfollowed
      | some follow =>
        obtain ⟨hshared, hmuted, -⟩ := (homeFollowed_iff hown hfollow).mp hfollowed
        obtain ⟨hmem, rfl, htarget⟩ := follow_eq_some.mp hfollow
        refine ⟨follow, hmem, ?_, rfl⟩
        by_cases hrelaxed : status.visibleAs [0, 1, 2] = true
        · have hmarkedAs : (status.markedBy f).visibleAs [0, 1, 2] = true := hrelaxed
          have hrow : isRecipient (db.discard f pins media) follow.accountId = true := hrecipient
          have htargets : follow.targetAccountId = (status.markedBy f).accountId := htarget
          simp [isFollowRecipient, hmarkedAs, hrow, htargets]
        · have hstrict : isFollowRecipient (db.discard f pins media) now true (status.markedBy f) author
              follow = isFollowRecipient (db.discard f pins media) now false (status.markedBy f) author
                follow := by
            have hmarkedAs : (status.markedBy f).visibleAs [0, 1, 2] = false := by
              rw [Bool.not_eq_true] at hrelaxed
              exact hrelaxed
            simp [isFollowRecipient, hmarkedAs]
          rw [hstrict]
          refine (@isFollowRecipient_iff (db.discard f pins media) now (status.markedBy f) author follow hown
            htarget hrecipient).mpr ⟨?_, ?_⟩
          · rw [sharedConditions_discard]
            exact hshared
          · rw [isMuted_discard]
            exact isMuted_now hmuted
    · right; right
      have hsame : isTagRecipient (db.discard f pins media) true (status.markedBy f) author viewer =
          isTagRecipient db true status author viewer := rfl
      have hpublic : status.visibility = 0 := by
        simp only [homeTagged, Bool.and_eq_true, visibleAs_iff, List.mem_singleton] at htagged
        exact htagged.1.1.1.1.1.1.1.2
      rw [hsame]
      simp only [homeAuthorized, homeTagged, isTagRecipient, hrecipient, hown, hpublic, Status.visibleAs,
        openToViewer_local (isRecipient_local hrecipient)] at hauthorized htagged ⊢
      simp at hauthorized htagged ⊢
      tauto

/-! ### Agreement -/

/-- The viewer is told of a status when and only when it is on the home timeline, and told when what is
    there is deleted. -/
structure StreamAgrees (db : Database) (now viewer : ℤ) (status : Status) : Prop where
  update : viewer ∈ statusRecipients db now false status.id ↔ status.id ∈ homeTimeline db viewer
  delete : status.id ∈ homeTimeline db viewer → ∀ f pins media later,
    viewer ∈ deleteRecipients (db.discard f pins media) later status.id

theorem mem_homeTimeline_iff (hstatus : status ∈ db.statuses) :
    status.id ∈ homeTimeline db viewer ↔ inHomeTimeline db viewer status = true :=
  mem_timeline_iff hstatus

/-- CORRECT (home streams): the stream of a viewer agrees with the home timeline on a status when and
    only when the relationship is settled. -/
theorem home_stream_agrees_iff (hstatus : status ∈ db.statuses) (hlive : status.deletedAt = none)
    (hauthor : db.account status.accountId = some author) (hsuspended : author.suspendedAt = none)
    (hboosted : ∀ boosted, boostedAuthor db status = some boosted → boosted.suspendedAt = none)
    (hrecipient : isRecipient db viewer = true) :
    StreamAgrees db now viewer status ↔ Settled db now viewer status author := by
  have hsource := sourceNotSuspended_of_boosted hboosted
  rw [← update_agrees_iff hstatus hlive hauthor hsuspended hsource hrecipient, ← mem_homeTimeline_iff hstatus]
  refine ⟨fun h => h.update, fun h => ⟨h, fun hhome f pins media later => ?_⟩⟩
  exact delete_reaches hstatus hauthor hrecipient ((mem_homeTimeline_iff hstatus).mp hhome)

/-! ### A mute that has run out -/

def remoteStatus : Status := { ownStatus 0 with id := 20, accountId := 2, isLocal := some false }

/-- The local account follows the remote one and mutes it, perhaps. -/
def mutingDatabase (mutes : List Mute) : Database :=
  { exampleDatabase 0 with
    users := [⟨1, false, none⟩]
    statuses := [remoteStatus]
    mutes := mutes
    status_ids := by simp }

/-- Without a mute both have the status. -/
theorem home_stream_agrees_unmuted : StreamAgrees (mutingDatabase []) 100 1 remoteStatus := by
  refine (@home_stream_agrees_iff (mutingDatabase []) 100 1 remoteStatus remoteAccount (List.mem_singleton_self _) rfl rfl rfl ?_
    (by decide)).mpr ?_
  · intro boosted hboosted
    cases hboosted
  · intro follow _ _ _ _ _
    exact ⟨by decide, by decide⟩

/-- After a mute has run out the stream tells of a status that the timeline does not show. -/
theorem home_stream_disagrees : ¬∀ (db : Database) (now viewer : ℤ) (status : Status) (author : Account),
    status ∈ db.statuses → status.deletedAt = none → db.account status.accountId = some author →
      author.suspendedAt = none →
        (∀ boosted, boostedAuthor db status = some boosted → boosted.suspendedAt = none) →
          isRecipient db viewer = true → StreamAgrees db now viewer status := by
  intro h
  have hagrees := h (mutingDatabase [⟨1, 2, some 50⟩]) 100 1 remoteStatus remoteAccount
    (List.mem_singleton_self _) rfl rfl rfl (fun boosted hboosted => nomatch hboosted) (by decide)
  have htold : (1 : ℤ) ∈ statusRecipients (mutingDatabase [⟨1, 2, some 50⟩]) 100 false 20 := by decide
  exact absurd (hagrees.update.mp htold) (by decide)

end Rustodon.Timelines
