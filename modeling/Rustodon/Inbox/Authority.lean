import Rustodon.Inbox.Activity

/-! @src mastodon/activitypub_inbox.rs | name:Authority of parsed activities | scheme:json |
    family:activitypub

    Whoever signed an activity may only speak for the actor it names. What a parsed activity carries
    is therefore looked at twice: every identity in it is a web address, and an object that is
    embedded in it belongs to its actor. -/

namespace Rustodon.Inbox
open Schemes.Checked Schemes.Json

/-- An absolute URL of the web that has a host. -/
def IsWebUri (env : Env) (uri : String) : Prop :=
  ∃ url, env.parseUrl uri = some url ∧ (url.scheme = "http" ∨ url.scheme = "https") ∧
    url.hostStr.isSome = true

/-- The value is read as this URI. -/
structure Reads (env : Env) (value : Option Value) (uri : String) : Prop where
  eq : value.bind valueOrId = some uri
  web : IsWebUri env uri

def InboxActivity.actorUri : InboxActivity → Option String
  | .createVote _ actorUri _ _ _ _ _ | .createNote _ actorUri _ _
  | .createNoteReference _ actorUri _ _ _ _ | .updateNote actorUri _ _ | .deleteNote actorUri _ _ _
  | .deleteQuoteAuthorization actorUri _ _ | .quoteRequest _ actorUri _ _
  | .quoteDecision _ actorUri _ _ _ _ _ | .like _ actorUri _ | .announce _ actorUri _ _ _ _ _
  | .undoLike actorUri _ _ | .undoAnnounce actorUri _ _ | .follow _ actorUri _
  | .flag _ actorUri _ _ | .block _ actorUri _ | .updateActor actorUri _ | .deleteActor actorUri _
  | .accept actorUri _ _ _ | .reject actorUri _ _ _ | .undoFollow actorUri _ _ _
  | .undoReference actorUri _ | .undoBlock actorUri _ _ _ => some actorUri
  | .unsupported => none

/-- All URIs of an activity that name something, the addressees aside. -/
def InboxActivity.uris : InboxActivity → List String
  | .createVote activityUri actorUri voteUri questionUri _ object _ =>
    [activityUri, actorUri, voteUri, questionUri] ++ (valueOrId object).toList
  | .createNote activityUri actorUri object _ =>
    [activityUri, actorUri] ++ (valueOrId object).toList
  | .createNoteReference activityUri actorUri objectUri _ _ _ => [activityUri, actorUri, objectUri]
  | .updateNote actorUri object _ => actorUri :: (valueOrId object).toList
  | .deleteNote actorUri objectUri atomUri _ => [actorUri, objectUri] ++ atomUri.toList
  | .deleteQuoteAuthorization actorUri authorizationUri _ => [actorUri, authorizationUri]
  | .quoteRequest requestUri actorUri objectUri instrument =>
    [requestUri, actorUri, objectUri] ++ (valueOrId instrument).toList
  | .quoteDecision _ actorUri requestUri requestActorUri objectUri instrumentUri resultUri =>
    [actorUri, requestUri] ++ requestActorUri.toList ++ objectUri.toList ++ instrumentUri.toList ++
      resultUri.toList
  | .announce activityUri actorUri objectUri embeddedNote _ _ _ =>
    [activityUri, actorUri, objectUri] ++ (embeddedNote.bind valueOrId).toList
  | .like activityUri actorUri objectUri | .undoLike actorUri activityUri objectUri
  | .undoAnnounce actorUri activityUri objectUri | .follow activityUri actorUri objectUri
  | .block activityUri actorUri objectUri => [activityUri, actorUri, objectUri]
  | .flag activityUri actorUri objectUris _ => activityUri.toList ++ actorUri :: objectUris
  | .updateActor actorUri object => actorUri :: (valueOrId object).toList
  | .deleteActor actorUri objectUri | .undoReference actorUri objectUri => [actorUri, objectUri]
  | .accept actorUri uri targetUri nestedActorUri | .reject actorUri uri targetUri nestedActorUri
  | .undoFollow actorUri uri targetUri nestedActorUri
  | .undoBlock actorUri uri targetUri nestedActorUri =>
    [actorUri, uri] ++ targetUri.toList ++ nestedActorUri.toList
  | .unsupported => []

/-- The URIs that have to be web addresses: what a `Flag` is about may be known by any identifier. -/
def InboxActivity.identityUris : InboxActivity → List String
  | .flag _ actorUri _ _ => [actorUri]
  | activity => activity.uris

def InboxActivity.audienceUris : InboxActivity → List String
  | .createNoteReference _ _ _ toUris ccUris _ | .announce _ _ _ _ toUris ccUris _ =>
    toUris ++ ccUris
  | _ => []

/-- The first of those an object is attributed to. -/
def firstAttributedTo (object : Fields) : Option String :=
  match get object "attributedTo" with
  | some (.array values) => values.head?.bind valueOrId
  | value => value.bind valueOrId

/-- A note that is attributed to an actor first of all. -/
def OwnNote (env : Env) (actorUri : String) (object : Value) : Prop :=
  ∃ note, object = .object note ∧ firstAttributedTo note = some actorUri ∧
    ∃ uri, Reads env (get note "id") uri

/-- An undone interaction is of no other actor. -/
def OwnInteraction (activity : Fields) (actorUri : String) : Prop :=
  ∃ undone, get activity "object" = some (.object undone) ∧
    (get undone "actor" = none ∨ (get undone "actor").bind valueOrId = some actorUri)

/-- The embedded object is bound to the actor. -/
def Bound (env : Env) (activity : Fields) : InboxActivity → Prop
  | .createVote _ actorUri voteUri _ _ object _ =>
    get activity "object" = some object ∧ ∃ vote, object = .object vote ∧
      (get vote "attributedTo").bind valueOrId = some actorUri ∧ Reads env (get vote "id") voteUri
  | .createNote _ actorUri object _ | .updateNote actorUri object _ =>
    get activity "object" = some object ∧ OwnNote env actorUri object
  | .announce _ actorUri _ (some note) _ _ _ =>
    get activity "object" = some note ∧ OwnNote env actorUri note
  | .undoLike actorUri _ _ | .undoAnnounce actorUri _ _ => OwnInteraction activity actorUri
  | .updateActor actorUri object =>
    get activity "object" = some object ∧ ∃ actor, object = .object actor ∧
      Reads env (get actor "id") actorUri
  | _ => True

def InboxActivity.isActorDeletion : InboxActivity → Bool
  | .deleteActor _ _ => true
  | _ => false

/-- The URI of what a `Delete` is about. -/
def deletedUri (activity : Fields) : Option String :=
  match get activity "object" with
  | some (.object object) => (get object "id").bind valueOrId
  | value => value.bind valueOrId

/-- What is promised of an activity that is parsed. -/
structure Authority (env : Env) (activity : Fields) (result : InboxActivity) : Prop where
  identities : ∀ uri ∈ result.identityUris, IsWebUri env uri
  audience : ∀ uri ∈ result.audienceUris, uri = "as:Public" ∨ uri = "Public" ∨ IsWebUri env uri
  actor : ∀ uri ∈ result.actorUri, Reads env (get activity "actor") uri
  bound : Bound env activity result
  deletion : result.isActorDeletion = true ↔
    kindOf activity = some .delete ∧ deletedUri activity = (get activity "actor").bind valueOrId

/-! ### Reading URIs -/

section Reading

variable {env : Env} {value : Option Value}

theorem ensure_eq_ok {condition : Bool} {u : Unit} (h : ensure condition = .ok u) :
    condition = true := by
  cases condition with
  | true => rfl
  | false => cases h

theorem requiredUri_ok {uri : String} (h : requiredUri env value = .ok uri) :
    Reads env value uri := by
  obtain ⟨text, htext, h⟩ := bind_eq_ok h
  obtain ⟨url, hurl, h⟩ := bind_eq_ok h
  obtain ⟨_, hweb, h⟩ := bind_eq_ok h
  obtain rfl := Except.ok.inj h
  have hweb := ensure_eq_ok hweb
  simp only [Bool.and_eq_true, Bool.or_eq_true, beq_iff_eq] at hweb
  exact ⟨okOr_eq_ok htext, url, okOr_eq_ok hurl, hweb⟩

theorem Reads.mem {uri : String} (h : Reads env value uri) : ∀ u ∈ some uri, Reads env value u := by
  rintro _ ⟨⟩
  exact h

theorem firstUri_ok {uri : String} (h : firstUri env value = .ok uri) : IsWebUri env uri := by
  unfold firstUri at h
  split at h <;> exact (requiredUri_ok h).web

theorem firstAttributedTo_of_ok {object : Fields} {uri : String}
    (h : firstUri env (get object "attributedTo") = .ok uri) :
    firstAttributedTo object = some uri := by
  unfold firstUri at h
  unfold firstAttributedTo
  generalize get object "attributedTo" = value at h
  cases value with
  | none => exact (requiredUri_ok h).eq
  | some value => cases value <;> exact (requiredUri_ok h).eq

theorem map_some_ok {x : Parsed String} {uri : Option String} (h : some <$> x = .ok uri) :
    ∃ u, x = .ok u ∧ uri = some u := by
  cases x with
  | error e => cases h
  | ok u => exact ⟨u, rfl, (Except.ok.inj h).symm⟩

theorem optionalUri_ok {uri : Option String} (h : optionalUri env value = .ok uri) :
    ∀ u ∈ uri, IsWebUri env u := by
  unfold optionalUri at h
  split at h
  · cases h
    nofun
  · cases h
    nofun
  · obtain ⟨u, hu, rfl⟩ := map_some_ok h
    rintro _ ⟨⟩
    exact (requiredUri_ok hu).web

theorem optionalAtomUri_ok {uri : Option String} (h : optionalAtomUri env value = .ok uri) :
    ∀ u ∈ uri, IsWebUri env u := by
  unfold optionalAtomUri at h
  split_ifs at h
  · cases h
    nofun
  · exact optionalUri_ok h

theorem presentUri_cases {fields : Fields} {field : String} {uri : Option String}
    (h : presentUri env fields field = .ok uri) :
    (get fields field = none ∧ uri = none) ∨
      ∃ u, Reads env (get fields field) u ∧ uri = some u := by
  unfold presentUri at h
  cases hget : get fields field with
  | none =>
    rw [hget] at h
    exact .inl ⟨rfl, (Except.ok.inj h).symm⟩
  | some value =>
    rw [hget] at h
    obtain ⟨u, hu, rfl⟩ := map_some_ok h
    exact .inr ⟨u, requiredUri_ok hu, rfl⟩

theorem presentUri_ok {fields : Fields} {field : String} {uri : Option String}
    (h : presentUri env fields field = .ok uri) : ∀ u ∈ uri, IsWebUri env u := by
  rcases presentUri_cases h with ⟨-, rfl⟩ | ⟨u, hu, rfl⟩
  · nofun
  · rintro _ ⟨⟩
    exact hu.web

theorem audienceUri_ok {uri : String} (h : audienceUri env value = .ok uri) :
    uri = "as:Public" ∨ uri = "Public" ∨ IsWebUri env uri := by
  unfold audienceUri at h
  split at h
  · split_ifs at h with hpublic
    · cases h
      rcases (by simpa using hpublic : uri = "as:Public" ∨ uri = "Public") with h | h
      · exact .inl h
      · exact .inr (.inl h)
    · exact .inr (.inr (requiredUri_ok h).web)
  · exact .inr (.inr (requiredUri_ok h).web)

/-- What holds of every result of a function holds of all results of a list. -/
theorem mapM_ok {α : Type} {f : Value → Parsed α} {P : α → Prop}
    (hf : ∀ v a, f v = .ok a → P a) : ∀ {values : List Value} {results : List α},
    values.mapM f = .ok results → ∀ a ∈ results, P a
  | [], _, h => by
    cases h
    nofun
  | v :: values, results, h => by
    rw [List.mapM_cons] at h
    obtain ⟨a, ha, h⟩ := bind_eq_ok h
    obtain ⟨rest, hrest, h⟩ := bind_eq_ok h
    obtain rfl := Except.ok.inj h
    exact List.forall_mem_cons.mpr ⟨hf v a ha, mapM_ok hf hrest⟩

theorem parseInteractionAudience_ok {uris : List String}
    (h : parseInteractionAudience env value = .ok uris) :
    ∀ uri ∈ uris, uri = "as:Public" ∨ uri = "Public" ∨ IsWebUri env uri := by
  unfold parseInteractionAudience at h
  split at h
  · cases h
    nofun
  · obtain ⟨_, -, h⟩ := bind_eq_ok h
    exact mapM_ok (fun _ _ h => audienceUri_ok h) h

/-- An object with an `id` is known by it. -/
theorem valueOrId_of_id {fields : Fields} {uri : String}
    (h : Reads env (get fields "id") uri) : valueOrId (.object fields) = some uri := by
  obtain ⟨value, hvalue, huri⟩ := Option.bind_eq_some_iff.mp h.eq
  rw [valueOrId_object, hvalue]
  exact huri

theorem validateNoteObject_ok {actorUri : String} {object : Fields} {u : Unit}
    (h : validateNoteObject env actorUri object = .ok u) : OwnNote env actorUri (.object object) := by
  obtain ⟨uri, huri, h⟩ := bind_eq_ok h
  obtain ⟨attributedTo, hattributed, h⟩ := bind_eq_ok h
  obtain ⟨_, hactor, -⟩ := bind_eq_ok h
  obtain rfl := beq_iff_eq.mp (ensure_eq_ok hactor)
  exact ⟨object, rfl, firstAttributedTo_of_ok hattributed, uri, requiredUri_ok huri⟩

/-- The URI of an own note is a web address. -/
theorem OwnNote.web {actorUri : String} {object : Value} (h : OwnNote env actorUri object) :
    ∀ uri ∈ valueOrId object, IsWebUri env uri := by
  obtain ⟨note, rfl, -, uri, huri⟩ := h
  rw [valueOrId_of_id huri]
  rintro _ ⟨⟩
  exact huri.web

end Reading

/-! ### The parsers -/

/-- What every parser but that of a `Delete` promises. -/
structure Speaks (env : Env) (activity : Fields) (result : InboxActivity) : Prop where
  identities : ∀ uri ∈ result.identityUris, IsWebUri env uri
  audience : ∀ uri ∈ result.audienceUris, uri = "as:Public" ∨ uri = "Public" ∨ IsWebUri env uri
  actor : ∀ uri ∈ result.actorUri, Reads env (get activity "actor") uri
  bound : Bound env activity result

section Parsers

variable {env : Env} {activity : Fields} {result : InboxActivity}

theorem speaks_unsupported : Speaks env activity .unsupported := ⟨nofun, nofun, nofun, trivial⟩

/-- The URIs that are always there, and those that may be. -/
theorem forall_mem_uris {P : String → Prop} {required : List String} {optional : Option String}
    (hrequired : ∀ uri ∈ required, P uri) (hoptional : ∀ uri ∈ optional, P uri) :
    ∀ uri ∈ required ++ optional.toList, P uri := by
  intro uri huri
  rcases List.mem_append.mp huri with huri | huri
  · exact hrequired uri huri
  · exact hoptional uri (Option.mem_toList.mp huri)

theorem parseNoteCreate_speaks (h : parseNoteCreate env activity = .ok result) :
    Speaks env activity result ∧ result.isActorDeletion = false := by
  obtain ⟨activityUri, hactivity, h⟩ := bind_eq_ok h
  obtain ⟨actorUri, hactor, h⟩ := bind_eq_ok h
  have hactivity := requiredUri_ok hactivity
  have hactor := requiredUri_ok hactor
  split at h
  · cases h
  · obtain ⟨objectUri, hobject, h⟩ := bind_eq_ok h
    obtain ⟨toUris, hto, h⟩ := bind_eq_ok h
    obtain ⟨ccUris, hcc, h⟩ := bind_eq_ok h
    obtain rfl := Except.ok.inj h
    refine ⟨⟨?_, ?_, hactor.mem, trivial⟩, rfl⟩
    · simp [InboxActivity.identityUris, InboxActivity.uris, hactivity.web, hactor.web,
        (requiredUri_ok hobject).web]
    · exact List.forall_mem_append.mpr
        ⟨parseInteractionAudience_ok hto, parseInteractionAudience_ok hcc⟩
  · rename_i object hobject
    split_ifs at h
    · obtain ⟨attributedTo, hattributed, h⟩ := bind_eq_ok h
      obtain ⟨_, hown, h⟩ := bind_eq_ok h
      obtain ⟨option, -, h⟩ := bind_eq_ok h
      obtain ⟨voteUri, hvote, h⟩ := bind_eq_ok h
      obtain ⟨questionUri, hquestion, h⟩ := bind_eq_ok h
      obtain rfl := Except.ok.inj h
      obtain rfl := beq_iff_eq.mp (ensure_eq_ok hown)
      have hvote := requiredUri_ok hvote
      refine ⟨⟨?_, nofun, hactor.mem, hobject, object, rfl, (requiredUri_ok hattributed).eq, hvote⟩,
        rfl⟩
      simp [InboxActivity.identityUris, InboxActivity.uris, hactivity.web, hactor.web, hvote.web,
        (requiredUri_ok hquestion).web, valueOrId_of_id hvote]
    · obtain rfl := Except.ok.inj h
      exact ⟨speaks_unsupported, rfl⟩
    · obtain ⟨_, hnote, h⟩ := bind_eq_ok h
      obtain rfl := Except.ok.inj h
      have hown := validateNoteObject_ok hnote
      refine ⟨⟨forall_mem_uris ?_ hown.web, nofun, hactor.mem, hobject, hown⟩, rfl⟩
      simp [hactivity.web, hactor.web]
  · cases h

theorem parseActorUpdateParts_ok {actorUri : String} {object : Fields}
    (h : parseActorUpdateParts env actorUri object = .ok result) :
    result = .updateActor actorUri (.object object) ∧ Reads env (get object "id") actorUri := by
  obtain ⟨objectUri, hobject, h⟩ := bind_eq_ok h
  obtain ⟨_, hown, h⟩ := bind_eq_ok h
  obtain rfl := beq_iff_eq.mp (ensure_eq_ok hown)
  -- what follows are the checks of the other fields
  iterate 7 obtain ⟨_, -, h⟩ := bind_eq_ok h
  exact ⟨(Except.ok.inj h).symm, requiredUri_ok hobject⟩

theorem parseUpdate_speaks (h : parseUpdate env activity = .ok result) :
    Speaks env activity result ∧ result.isActorDeletion = false := by
  obtain ⟨actorUri, hactor, h⟩ := bind_eq_ok h
  have hactor := requiredUri_ok hactor
  split at h
  · rename_i object hobject
    split_ifs at h
    · obtain ⟨_, hnote, h⟩ := bind_eq_ok h
      obtain rfl := Except.ok.inj h
      have hown := validateNoteObject_ok hnote
      refine ⟨⟨?_, nofun, hactor.mem, hobject, hown⟩, rfl⟩
      exact List.forall_mem_cons.mpr ⟨hactor.web, fun uri huri =>
        hown.web uri (Option.mem_toList.mp huri)⟩
    · obtain ⟨rfl, hid⟩ := parseActorUpdateParts_ok h
      refine ⟨⟨?_, nofun, hactor.mem, hobject, object, rfl, hid⟩, rfl⟩
      simp [InboxActivity.identityUris, InboxActivity.uris, hactor.web, valueOrId_of_id hid]
    · obtain rfl := Except.ok.inj h
      exact ⟨speaks_unsupported, rfl⟩
  · obtain rfl := Except.ok.inj h
    exact ⟨speaks_unsupported, rfl⟩

theorem deletedUris_ok {object : Value} {uris : String × Option String}
    (hobject : get activity "object" = some object) (h : deletedUris env object = .ok uris) :
    deletedUri activity = some uris.1 ∧ IsWebUri env uris.1 ∧ ∀ uri ∈ uris.2, IsWebUri env uri := by
  unfold deletedUris at h
  rw [deletedUri, hobject]
  split at h
  · obtain ⟨uri, huri, h⟩ := bind_eq_ok h
    obtain rfl := Except.ok.inj h
    exact ⟨(requiredUri_ok huri).eq, (requiredUri_ok huri).web, nofun⟩
  · obtain ⟨uri, huri, h⟩ := bind_eq_ok h
    obtain ⟨atomUri, hatom, h⟩ := bind_eq_ok h
    obtain rfl := Except.ok.inj h
    exact ⟨(requiredUri_ok huri).eq, (requiredUri_ok huri).web, optionalAtomUri_ok hatom⟩
  · cases h

theorem parseDelete_speaks (h : parseDelete env activity = .ok result) :
    Speaks env activity result ∧ (result.isActorDeletion = true ↔
      deletedUri activity = (get activity "actor").bind valueOrId) := by
  obtain ⟨actorUri, hactor, h⟩ := bind_eq_ok h
  obtain ⟨object, hobject, h⟩ := bind_eq_ok h
  obtain ⟨⟨objectUri, atomUri⟩, huris, h⟩ := bind_eq_ok h
  have hactor := requiredUri_ok hactor
  obtain ⟨hdeleted, hweb, hatom⟩ := deletedUris_ok (okOr_eq_ok hobject) huris
  rw [hdeleted, hactor.eq]
  simp only [Option.some.injEq] at hatom ⊢
  dsimp only at h
  split_ifs at h with hself
  · obtain rfl := Except.ok.inj h
    refine ⟨⟨?_, nofun, hactor.mem, trivial⟩, iff_of_true rfl hself⟩
    simp [InboxActivity.identityUris, InboxActivity.uris, hactor.web, hweb]
  · obtain rfl := Except.ok.inj h
    refine ⟨⟨?_, nofun, hactor.mem, trivial⟩, iff_of_false Bool.false_ne_true hself⟩
    simp [InboxActivity.identityUris, InboxActivity.uris, hactor.web, hweb]
  · obtain rfl := Except.ok.inj h
    refine ⟨⟨forall_mem_uris ?_ hatom, nofun, hactor.mem, trivial⟩,
      iff_of_false Bool.false_ne_true hself⟩
    simp [hactor.web, hweb]

theorem parseQuoteRequest_speaks (h : parseQuoteRequest env activity = .ok result) :
    Speaks env activity result ∧ result.isActorDeletion = false := by
  obtain ⟨requestUri, hrequest, h⟩ := bind_eq_ok h
  obtain ⟨actorUri, hactor, h⟩ := bind_eq_ok h
  obtain ⟨objectUri, hobject, h⟩ := bind_eq_ok h
  obtain ⟨instrument, -, h⟩ := bind_eq_ok h
  obtain ⟨instrumentUri, hinstrument, h⟩ := bind_eq_ok h
  obtain rfl := Except.ok.inj h
  have hinstrument := requiredUri_ok hinstrument
  have heq : valueOrId instrument = some instrumentUri := hinstrument.eq
  refine ⟨⟨?_, nofun, (requiredUri_ok hactor).mem, trivial⟩, rfl⟩
  simp [InboxActivity.identityUris, InboxActivity.uris, (requiredUri_ok hrequest).web,
    (requiredUri_ok hactor).web, (requiredUri_ok hobject).web, heq, hinstrument.web]

theorem embeddedNote_ok {actorUri : String} {note : Value}
    (h : embeddedNote env actorUri (get activity "object") = some note) :
    get activity "object" = some note ∧ OwnNote env actorUri note := by
  unfold embeddedNote at h
  split at h
  · rename_i object hobject
    split_ifs at h with hvalid
    obtain rfl := Option.some.inj h
    simp only [Bool.and_eq_true] at hvalid
    refine ⟨hobject, ?_⟩
    cases hnote : validateNoteObject env actorUri object with
    | error e => simp [hnote, isOk] at hvalid
    | ok u => exact validateNoteObject_ok hnote
  · cases h

theorem parseInteraction_speaks {like : Bool} (h : parseInteraction env activity like = .ok result) :
    Speaks env activity result ∧ result.isActorDeletion = false := by
  obtain ⟨activityUri, hactivity, h⟩ := bind_eq_ok h
  obtain ⟨actorUri, hactor, h⟩ := bind_eq_ok h
  obtain ⟨objectUri, hobject, h⟩ := bind_eq_ok h
  have hactivity := requiredUri_ok hactivity
  have hactor := requiredUri_ok hactor
  have hobject := requiredUri_ok hobject
  split_ifs at h
  · obtain rfl := Except.ok.inj h
    refine ⟨⟨?_, nofun, hactor.mem, trivial⟩, rfl⟩
    simp [InboxActivity.identityUris, InboxActivity.uris, hactivity.web, hactor.web, hobject.web]
  · obtain ⟨toUris, hto, h⟩ := bind_eq_ok h
    obtain ⟨ccUris, hcc, h⟩ := bind_eq_ok h
    obtain ⟨publishedAt, -, h⟩ := bind_eq_ok h
    obtain rfl := Except.ok.inj h
    refine ⟨⟨forall_mem_uris ?_ ?_, ?_, hactor.mem, ?_⟩, rfl⟩
    · simp [hactivity.web, hactor.web, hobject.web]
    · intro uri huri
      obtain ⟨note, hnote, huri⟩ := Option.bind_eq_some_iff.mp huri
      exact (embeddedNote_ok hnote).2.web uri huri
    · exact List.forall_mem_append.mpr
        ⟨parseInteractionAudience_ok hto, parseInteractionAudience_ok hcc⟩
    · cases hnote : embeddedNote env actorUri (get activity "object") with
      | none => trivial
      | some note => exact embeddedNote_ok hnote

theorem parseFlag_speaks (h : parseFlag env activity = .ok result) :
    Speaks env activity result ∧ result.isActorDeletion = false := by
  obtain ⟨actorUri, hactor, h⟩ := bind_eq_ok h
  obtain ⟨object, -, h⟩ := bind_eq_ok h
  obtain ⟨_, -, h⟩ := bind_eq_ok h
  obtain ⟨comment, -, h⟩ := bind_eq_ok h
  obtain rfl := Except.ok.inj h
  have hactor := requiredUri_ok hactor
  refine ⟨⟨?_, nofun, hactor.mem, trivial⟩, rfl⟩
  simp [InboxActivity.identityUris, hactor.web]

theorem parsePlain_ok {make : String → String → String → InboxActivity}
    (h : parsePlain env activity make = .ok result) :
    ∃ activityUri actorUri objectUri, result = make activityUri actorUri objectUri ∧
      IsWebUri env activityUri ∧ Reads env (get activity "actor") actorUri ∧
        IsWebUri env objectUri := by
  obtain ⟨activityUri, hactivity, h⟩ := bind_eq_ok h
  obtain ⟨actorUri, hactor, h⟩ := bind_eq_ok h
  obtain ⟨objectUri, hobject, h⟩ := bind_eq_ok h
  exact ⟨activityUri, actorUri, objectUri, (Except.ok.inj h).symm, (requiredUri_ok hactivity).web,
    requiredUri_ok hactor, (requiredUri_ok hobject).web⟩

theorem embeddedRelation_cases {object : Fields}
    {make : String → Option String → Option String → InboxActivity}
    (h : embeddedRelation env object make = .ok result) :
    ∃ uri targetUri nestedActorUri, result = make uri targetUri nestedActorUri ∧
      IsWebUri env uri ∧ (∀ u ∈ targetUri, IsWebUri env u) ∧
        ∀ u ∈ nestedActorUri, IsWebUri env u := by
  obtain ⟨uri, huri, h⟩ := bind_eq_ok h
  obtain ⟨targetUri, htarget, h⟩ := bind_eq_ok h
  obtain ⟨nestedActorUri, hnested, h⟩ := bind_eq_ok h
  exact ⟨uri, targetUri, nestedActorUri, (Except.ok.inj h).symm, (requiredUri_ok huri).web,
    presentUri_ok htarget, presentUri_ok hnested⟩

/-- Decisions and undoings of a follow or a block are made of these URIs and bind nothing. -/
def IsRelation (env : Env) (activity : Fields) (actorUri : String)
    (make : String → Option String → Option String → InboxActivity) : Prop :=
  ∀ uri targetUri nestedActorUri,
    (make uri targetUri nestedActorUri).identityUris =
      [actorUri, uri] ++ targetUri.toList ++ nestedActorUri.toList ∧
    (make uri targetUri nestedActorUri).audienceUris = [] ∧
    (make uri targetUri nestedActorUri).actorUri = some actorUri ∧
    Bound env activity (make uri targetUri nestedActorUri) ∧
    (make uri targetUri nestedActorUri).isActorDeletion = false

theorem isRelation_accept (actorUri : String) : IsRelation env activity actorUri (.accept actorUri) :=
  fun _ _ _ => ⟨rfl, rfl, rfl, trivial, rfl⟩

theorem isRelation_reject (actorUri : String) : IsRelation env activity actorUri (.reject actorUri) :=
  fun _ _ _ => ⟨rfl, rfl, rfl, trivial, rfl⟩

theorem isRelation_undoFollow (actorUri : String) :
    IsRelation env activity actorUri (.undoFollow actorUri) :=
  fun _ _ _ => ⟨rfl, rfl, rfl, trivial, rfl⟩

theorem isRelation_undoBlock (actorUri : String) :
    IsRelation env activity actorUri (.undoBlock actorUri) :=
  fun _ _ _ => ⟨rfl, rfl, rfl, trivial, rfl⟩

theorem embeddedRelation_speaks {object : Fields} {actorUri : String}
    {make : String → Option String → Option String → InboxActivity}
    (hactor : Reads env (get activity "actor") actorUri)
    (hmake : IsRelation env activity actorUri make)
    (h : embeddedRelation env object make = .ok result) :
    Speaks env activity result ∧ result.isActorDeletion = false := by
  obtain ⟨uri, targetUri, nestedActorUri, rfl, huri, htarget, hnested⟩ := embeddedRelation_cases h
  obtain ⟨huris, haudience, hactorUri, hbound, hdeletion⟩ := hmake uri targetUri nestedActorUri
  refine ⟨⟨?_, by simp [haudience], by rw [hactorUri]; exact hactor.mem, hbound⟩, hdeletion⟩
  rw [huris]
  refine forall_mem_uris (forall_mem_uris ?_ htarget) hnested
  simp [hactor.web, huri]

/-- The decision on a follow, by reference or embedded. -/
theorem followDecision_speaks {object : Value} {actorUri : String}
    {decision : String → Option String → Option String → InboxActivity}
    (hactor : Reads env (get activity "actor") actorUri)
    (hdecision : IsRelation env activity actorUri decision)
    (h : (match object with
      | .string _ => do
        let followUri ← requiredUri env (some object)
        pure (decision followUri none none)
      | .object fields =>
        match (get fields "type").bind Value.asStr with
        | none => embeddedRelation env fields decision
        | some kind =>
          if kind = "Follow" then embeddedRelation env fields decision else pure .unsupported
      | _ => .error .activity) = Except.ok result) :
    Speaks env activity result ∧ result.isActorDeletion = false := by
  split at h
  · obtain ⟨followUri, hfollow, h⟩ := bind_eq_ok h
    obtain rfl := Except.ok.inj h
    obtain ⟨huris, haudience, hactorUri, hbound, hdeletion⟩ := hdecision followUri none none
    refine ⟨⟨?_, by simp [haudience], by rw [hactorUri]; exact hactor.mem, hbound⟩, hdeletion⟩
    simp [huris, hactor.web, (requiredUri_ok hfollow).web]
  · split at h
    · exact embeddedRelation_speaks hactor hdecision h
    · split_ifs at h
      · exact embeddedRelation_speaks hactor hdecision h
      · obtain rfl := Except.ok.inj h
        exact ⟨speaks_unsupported, rfl⟩
  · cases h

theorem parseFollowDecision_speaks {accepted : Bool}
    (h : parseFollowDecision env activity accepted = .ok result) :
    Speaks env activity result ∧ result.isActorDeletion = false := by
  obtain ⟨actorUri, hactor, h⟩ := bind_eq_ok h
  obtain ⟨object, -, h⟩ := bind_eq_ok h
  have hactor := requiredUri_ok hactor
  split at h
  · obtain ⟨resultUri, hresult, h⟩ := bind_eq_ok h
    obtain ⟨_, -, h⟩ := bind_eq_ok h
    obtain ⟨requestUri, hrequest, h⟩ := bind_eq_ok h
    obtain ⟨requestActorUri, hrequestActor, h⟩ := bind_eq_ok h
    obtain ⟨objectUri, hobject, h⟩ := bind_eq_ok h
    obtain ⟨instrumentUri, hinstrument, h⟩ := bind_eq_ok h
    obtain rfl := Except.ok.inj h
    refine ⟨⟨?_, nofun, hactor.mem, trivial⟩, rfl⟩
    have hresult : ∀ uri ∈ resultUri, IsWebUri env uri := by
      cases hget : get activity "result" with
      | none =>
        rw [hget] at hresult
        obtain rfl := Except.ok.inj hresult
        nofun
      | some value =>
        rw [hget] at hresult
        obtain ⟨uri, huri, rfl⟩ := map_some_ok hresult
        rintro _ ⟨⟩
        exact firstUri_ok huri
    refine forall_mem_uris (forall_mem_uris (forall_mem_uris (forall_mem_uris ?_
      (presentUri_ok hrequestActor)) (presentUri_ok hobject)) (presentUri_ok hinstrument)) hresult
    simp [hactor.web, (requiredUri_ok hrequest).web]
  · split at h
    · obtain ⟨_, -, h⟩ := bind_eq_ok h
      obtain ⟨requestUri, hrequest, h⟩ := bind_eq_ok h
      obtain ⟨resultUri, hresult, h⟩ := bind_eq_ok h
      obtain rfl := Except.ok.inj h
      refine ⟨⟨?_, nofun, hactor.mem, trivial⟩, rfl⟩
      simp [InboxActivity.identityUris, InboxActivity.uris, hactor.web,
        (requiredUri_ok hrequest).web, firstUri_ok hresult]
    · cases accepted with
      | true => exact followDecision_speaks hactor (isRelation_accept actorUri) h
      | false => exact followDecision_speaks hactor (isRelation_reject actorUri) h

theorem undoInteraction_speaks {object : Fields} {actorUri : String}
    {undo : String → String → InboxActivity}
    (hactor : Reads env (get activity "actor") actorUri)
    (hobject : get activity "object" = some (.object object))
    (hundo : undo = .undoLike actorUri ∨ undo = .undoAnnounce actorUri)
    (h : undoInteraction env actorUri object undo = .ok result) :
    Speaks env activity result ∧ result.isActorDeletion = false := by
  obtain ⟨activityUri, hactivity, h⟩ := bind_eq_ok h
  obtain ⟨objectUri, hobjectUri, h⟩ := bind_eq_ok h
  obtain ⟨nestedActorUri, hnested, h⟩ := bind_eq_ok h
  obtain ⟨_, hown, h⟩ := bind_eq_ok h
  obtain rfl := Except.ok.inj h
  have hinteraction : OwnInteraction activity actorUri := by
    refine ⟨object, hobject, ?_⟩
    rcases presentUri_cases hnested with ⟨hnone, -⟩ | ⟨uri, huri, rfl⟩
    · exact .inl hnone
    · have hsame : uri = actorUri := by simpa using ensure_eq_ok hown
      exact .inr (hsame ▸ huri.eq)
  rcases hundo with rfl | rfl
  all_goals
    refine ⟨⟨?_, nofun, hactor.mem, hinteraction⟩, rfl⟩
    simp [InboxActivity.identityUris, InboxActivity.uris, hactor.web,
      (requiredUri_ok hactivity).web, (requiredUri_ok hobjectUri).web]

theorem parseUndo_speaks (h : parseUndo env activity = .ok result) :
    Speaks env activity result ∧ result.isActorDeletion = false := by
  obtain ⟨actorUri, hactor, h⟩ := bind_eq_ok h
  obtain ⟨object, hobject, h⟩ := bind_eq_ok h
  have hactor := requiredUri_ok hactor
  split at h
  · obtain ⟨objectUri, hobject, h⟩ := bind_eq_ok h
    obtain rfl := Except.ok.inj h
    refine ⟨⟨?_, nofun, hactor.mem, trivial⟩, rfl⟩
    simp [InboxActivity.identityUris, InboxActivity.uris, hactor.web, (requiredUri_ok hobject).web]
  · have hobject := okOr_eq_ok hobject
    split at h
    · exact embeddedRelation_speaks hactor (isRelation_undoFollow actorUri) h
    · split_ifs at h
      · exact embeddedRelation_speaks hactor (isRelation_undoFollow actorUri) h
      · exact embeddedRelation_speaks hactor (isRelation_undoBlock actorUri) h
      · exact undoInteraction_speaks hactor hobject (.inl rfl) h
      · exact undoInteraction_speaks hactor hobject (.inr rfl) h
      · obtain rfl := Except.ok.inj h
        exact ⟨speaks_unsupported, rfl⟩
  · cases h

/-- A `Follow` or a `Block`. -/
theorem parsePlain_speaks {make : String → String → String → InboxActivity}
    (hmake : make = .follow ∨ make = .block) (h : parsePlain env activity make = .ok result) :
    Speaks env activity result ∧ result.isActorDeletion = false := by
  obtain ⟨activityUri, actorUri, objectUri, rfl, hactivity, hactor, hobject⟩ := parsePlain_ok h
  rcases hmake with rfl | rfl
  all_goals
    refine ⟨⟨?_, nofun, hactor.mem, trivial⟩, rfl⟩
    simp [InboxActivity.identityUris, InboxActivity.uris, hactivity, hactor.web, hobject]

theorem parseKind_speaks {kind : Kind} (hkind : kind ≠ .delete)
    (h : parseKind env activity kind = .ok result) :
    Speaks env activity result ∧ result.isActorDeletion = false := by
  cases kind with
  | create => exact parseNoteCreate_speaks h
  | update => exact parseUpdate_speaks h
  | delete => exact absurd rfl hkind
  | quoteRequest => exact parseQuoteRequest_speaks h
  | like | announce => exact parseInteraction_speaks h
  | follow => exact parsePlain_speaks (.inl rfl) h
  | flag => exact parseFlag_speaks h
  | block => exact parsePlain_speaks (.inr rfl) h
  | accept | reject => exact parseFollowDecision_speaks h
  | undo => exact parseUndo_speaks h

end Parsers

/-! ### The whole -/

/-- Parsing as it is on one body, on URLs of one host and on tags. -/
def bodyEnv (body : String) (activity : Fields) : Env where
  fromStr text := if text = body then some (.object activity) else none
  parseUrl url :=
    if "https://r.example/".toList.isPrefixOf url.toList then some ⟨"https", some "r.example"⟩
    else if "tag:".toList.isPrefixOf url.toList then some ⟨"tag", none⟩
    else none

def renameText : String :=
  "\x7b\"actor\":\"https://r.example/a\",\"object\":\x7b\"id\":\" https://r.example/a\"," ++
    "\"name\":\"A\",\"type\":\"Person\"\x7d,\"type\":[\"Update\"]\x7d"

/-- An actor with a new name; its URI has a blank before it. -/
def renamed : Fields :=
  [("id", .string " https://r.example/a"), ("name", .string "A"), ("type", .string "Person")]

def rename : Fields :=
  [("actor", .string "https://r.example/a"), ("object", .object renamed),
    ("type", .array [.string "Update"])]

def flagText : String :=
  "\x7b\"actor\":\"https://r.example/a\",\"id\":\"tag:r.example,2026:flag-1\"," ++
    "\"object\":[\"tag:l.example,2026:status-1\"],\"type\":\"Flag\"\x7d"

def flagged : Fields :=
  [("actor", .string "https://r.example/a"), ("id", .string "tag:r.example,2026:flag-1"),
    ("object", .array [.string "tag:l.example,2026:status-1"]), ("type", .string "Flag")]

end Rustodon.Inbox
