import Rustodon.Inbox.Activity

/-! @src mastodon/activitypub_inbox.rs | name:Type arrays in inbox activities | scheme:json |
    family:activitypub

    ActivityStreams lets `"type": T` be written `"type": [T]`. All parsers but two read types with
    `equals_or_includes`, for which both spellings are the same. Those of `Accept`, `Reject` and
    `Undo` read the embedded type with `as_str`, which finds nothing in an array, and take an object
    without a type for a `Follow`. -/

namespace Rustodon.Inbox
open Schemes.Checked Schemes.Json Schemes.Utf8

/-- Puts a scalar into an array of its own. -/
def wrapScalar : Value → Value
  | .array items => .array items
  | .object fields => .object fields
  | scalar => .array [scalar]

def wrapType (fields : Fields) : Fields := modify "type" wrapScalar fields

/-- Wraps the type of an embedded object. -/
def wrapObject : Value → Value
  | .object fields => .object (wrapType fields)
  | value => value

/-- Writes a scalar type as an array, on the activity, on its embedded object, or on both. -/
def rewriteTypes (outer embedded : Bool) (activity : Fields) : Fields :=
  let activity := if embedded then modify "object" wrapObject activity else activity
  if outer then wrapType activity else activity

/-- An activity without the raw JSON it retains. -/
def erase : InboxActivity → InboxActivity
  | .createVote activityUri actorUri voteUri questionUri option _ _ =>
    .createVote activityUri actorUri voteUri questionUri option .null .null
  | .createNote activityUri actorUri _ _ => .createNote activityUri actorUri .null .null
  | .createNoteReference activityUri actorUri objectUri toUris ccUris _ =>
    .createNoteReference activityUri actorUri objectUri toUris ccUris .null
  | .updateNote actorUri _ _ => .updateNote actorUri .null .null
  | .deleteNote actorUri objectUri atomUri _ => .deleteNote actorUri objectUri atomUri .null
  | .deleteQuoteAuthorization actorUri authorizationUri _ =>
    .deleteQuoteAuthorization actorUri authorizationUri .null
  | .quoteRequest requestUri actorUri objectUri _ =>
    .quoteRequest requestUri actorUri objectUri .null
  | .announce activityUri actorUri objectUri embeddedNote toUris ccUris publishedAt =>
    .announce activityUri actorUri objectUri (embeddedNote.map fun _ => .null) toUris ccUris
      publishedAt
  | .updateActor actorUri _ => .updateActor actorUri .null
  | activity => activity

/-- The result of a parse without raw JSON. -/
def erased (result : Parsed InboxActivity) : Parsed InboxActivity := result.map erase

/-- The activities whose embedded type is read with `as_str` and is none that the fallback agrees
    with: an `Undo` of anything but a `Follow`, or an `Accept` or `Reject` of anything but a
    `Follow` or a `QuoteRequest`. -/
def Misread (activity : Fields) : Prop :=
  ∃ object kind, get activity "object" = some (.object object) ∧
    get object "type" = some (.string kind) ∧ kind ≠ "Follow" ∧
    (kindOf activity = some .undo ∨
      (kindOf activity = some .accept ∨ kindOf activity = some .reject) ∧ kind ≠ "QuoteRequest")

/-! ### Objects that agree on everything but the spelling of the type -/

/-- Two objects with the same entries, whose types include the same strings. -/
structure Retyped (o o' : Fields) : Prop where
  other : ∀ key, key ≠ "type" → get o' key = get o key
  includes : ∀ kind, equalsOrIncludes (get o' "type") kind = equalsOrIncludes (get o "type") kind
  typed : (get o' "type").isSome = (get o "type").isSome

/-- Two values that are the same, or objects that agree on everything but the type's spelling. -/
inductive RetypedValue : Value → Value → Prop
  | plain {v : Value} (h : v.asObject = none) : RetypedValue v v
  | object {o o' : Fields} (h : Retyped o o') : RetypedValue (.object o) (.object o')

/-- Two activities that agree on everything but the spelling of their types. -/
structure Respelled (a a' : Fields) : Prop where
  other : ∀ key, key ≠ "type" → key ≠ "object" → get a' key = get a key
  includes : ∀ kind, equalsOrIncludes (get a' "type") kind = equalsOrIncludes (get a "type") kind
  typed : (get a' "type").isSome = (get a "type").isSome
  object : get a "object" = none ∧ get a' "object" = none ∨
    ∃ v v', get a "object" = some v ∧ get a' "object" = some v' ∧ RetypedValue v v'

theorem equalsOrIncludes_wrapScalar (value : Option Value) (kind : String) :
    equalsOrIncludes (value.map wrapScalar) kind = equalsOrIncludes value kind := by
  rcases value with - | v
  · rfl
  · cases v <;> simp [wrapScalar, equalsOrIncludes, Value.asStr]

theorem retyped_refl (o : Fields) : Retyped o o :=
  ⟨fun _ _ => rfl, fun _ => rfl, rfl⟩

theorem retyped_wrapType (o : Fields) : Retyped o (wrapType o) := by
  refine ⟨fun key hkey => get_modify_ne hkey wrapScalar o, fun kind => ?_, ?_⟩
  · rw [wrapType, get_modify_self, equalsOrIncludes_wrapScalar]
  · rw [wrapType, get_modify_self, Option.isSome_map]

/-- An array is no string, so a wrapped type is never read by `as_str`. -/
theorem asStr_wrapType (o : Fields) : (get (wrapType o) "type").bind Value.asStr = none := by
  rw [wrapType, get_modify_self]
  rcases get o "type" with - | v
  · rfl
  · cases v <;> rfl

theorem retypedValue_refl (v : Value) : RetypedValue v v := by
  cases v with
  | object o => exact .object (retyped_refl o)
  | _ => exact .plain rfl

theorem retypedValue_wrapObject (v : Value) : RetypedValue v (wrapObject v) := by
  cases v with
  | object o => exact .object (retyped_wrapType o)
  | _ => exact .plain rfl

theorem get_rewriteTypes_object (outer embedded : Bool) (a : Fields) :
    get (rewriteTypes outer embedded a) "object" =
      (get a "object").map fun v => if embedded then wrapObject v else v := by
  rw [rewriteTypes]
  cases outer <;> cases embedded <;>
    simp [wrapType, get_modify_self, get_modify_ne]

theorem respelled_rewriteTypes (outer embedded : Bool) (a : Fields) :
    Respelled a (rewriteTypes outer embedded a) := by
  have hembedded : ∀ key, key ≠ "object" →
      get (if embedded then modify "object" wrapObject a else a) key = get a key := by
    intro key hkey
    split_ifs
    · exact get_modify_ne hkey wrapObject a
    · rfl
  refine ⟨fun key hkey hobject => ?_, fun kind => ?_, ?_, ?_⟩
  · rw [rewriteTypes]
    cases outer with
    | true => rw [if_pos rfl, (retyped_wrapType _).other key hkey, hembedded key hobject]
    | false => rw [if_neg (by decide), hembedded key hobject]
  · rw [rewriteTypes]
    cases outer with
    | true => rw [if_pos rfl, (retyped_wrapType _).includes, hembedded _ (by decide)]
    | false => rw [if_neg (by decide), hembedded _ (by decide)]
  · rw [rewriteTypes]
    cases outer with
    | true => rw [if_pos rfl, (retyped_wrapType _).typed, hembedded _ (by decide)]
    | false => rw [if_neg (by decide), hembedded _ (by decide)]
  · rw [get_rewriteTypes_object]
    cases hobject : get a "object" with
    | none => exact Or.inl ⟨rfl, rfl⟩
    | some v =>
      refine Or.inr ⟨v, _, rfl, rfl, ?_⟩
      cases embedded with
      | true => exact retypedValue_wrapObject v
      | false => exact retypedValue_refl v

/-! ### What the helpers read -/

variable {env : Env}

theorem Retyped.valueOrId {o o' : Fields} (h : Retyped o o') :
    valueOrId (.object o') = valueOrId (.object o) := by
  rw [valueOrId_object, valueOrId_object, h.other _ (by decide), h.other _ (by decide)]

theorem RetypedValue.requiredUri {v v' : Value} (h : RetypedValue v v') :
    requiredUri env (some v') = requiredUri env (some v) := by
  cases h with
  | plain _ => rfl
  | object h =>
    simp only [Inbox.requiredUri, Option.bind_some, h.valueOrId]

theorem Respelled.requiredUri {a a' : Fields} (h : Respelled a a') :
    requiredUri env (get a' "object") = requiredUri env (get a "object") := by
  rcases h.object with ⟨ha, ha'⟩ | ⟨v, v', ha, ha', hv⟩
  · rw [ha, ha']
  · rw [ha, ha', hv.requiredUri]

theorem Retyped.remoteNoteContent {o o' : Fields} (h : Retyped o o') :
    remoteNoteContent o' = remoteNoteContent o := by
  simp (disch := decide) only [Inbox.remoteNoteContent, h.other]

theorem Retyped.validateNoteObject {o o' : Fields} (h : Retyped o o') (actorUri : String) :
    validateNoteObject env actorUri o' = validateNoteObject env actorUri o := by
  simp (disch := decide) only [Inbox.validateNoteObject, List.forM,
    h.other, h.remoteNoteContent]

theorem Retyped.presentUri {o o' : Fields} (h : Retyped o o') {field : String}
    (hfield : field ≠ "type") : presentUri env o' field = presentUri env o field := by
  rw [Inbox.presentUri, Inbox.presentUri, h.other field hfield]

/-! ### Results without raw JSON -/

@[simp] theorem erased_bind {α : Type} (x : Parsed α) (f : α → Parsed InboxActivity) :
    erased (x >>= f) = x >>= fun a => erased (f a) := by
  cases x <;> rfl

@[simp] theorem erased_pure (activity : InboxActivity) :
    erased (pure activity) = pure (erase activity) := rfl

@[simp] theorem erased_error (e : InboxParseError) : erased (.error e) = .error e := rfl

@[simp] theorem erased_ite (c : Prop) [Decidable c] (x y : Parsed InboxActivity) :
    erased (if c then x else y) = if c then erased x else erased y := apply_ite erased c x y

/-- A successful parse has an equal one beside it exactly when both agree without raw JSON. -/
theorem exists_erase_eq_iff {result result' : Parsed InboxActivity} {activity : InboxActivity}
    (hok : result = .ok activity) :
    (∃ activity', result' = .ok activity' ∧ erase activity' = erase activity) ↔
      erased result' = erased result := by
  subst hok
  cases result' with
  | error e => simp [erased, Except.map]
  | ok activity' => simp [erased, Except.map]

/-! ### The parsers -/

variable {a a' : Fields}

theorem Respelled.parseNoteCreate (h : Respelled a a') :
    erased (parseNoteCreate env a') = erased (parseNoteCreate env a) := by
  simp (disch := decide) only [Inbox.parseNoteCreate, h.other, erased_bind]
  rcases h.object with ⟨ha, ha'⟩ | ⟨v, v', ha, ha', hv⟩
  · rw [ha, ha']
  · rw [ha, ha']
    cases hv with
    | plain hv =>
      cases v with
      | object o => exact absurd hv (by simp [Value.asObject])
      | _ => simp only [erased_bind, erased_pure, erased_error, erase]
    | object ho =>
      simp (disch := decide) only [ho.other, ho.includes, ho.validateNoteObject, erased_ite,
        erased_bind, erased_pure, erase]

theorem Retyped.parseActorUpdateParts {o o' : Fields} (h : Retyped o o') (actorUri : String) :
    erased (parseActorUpdateParts env actorUri o') =
      erased (parseActorUpdateParts env actorUri o) := by
  simp (disch := decide) only [Inbox.parseActorUpdateParts, boundedText, List.forM, h.other, erased_bind, erased_pure, erase]

theorem Respelled.parseUpdate (h : Respelled a a') :
    erased (parseUpdate env a') = erased (parseUpdate env a) := by
  simp (disch := decide) only [Inbox.parseUpdate, h.other, erased_bind]
  rcases h.object with ⟨ha, ha'⟩ | ⟨v, v', ha, ha', hv⟩
  · rw [ha, ha']
  · rw [ha, ha']
    cases hv with
    | plain hv =>
      cases v with
      | object o => exact absurd hv (by simp [Value.asObject])
      | _ => rfl
    | object ho =>
      have hkinds : actorKinds.any (equalsOrIncludes (get _ "type")) = _ :=
        congrArg (actorKinds.any ·) (funext ho.includes)
      simp only [ho.includes, ho.typed, hkinds, ho.validateNoteObject, ho.parseActorUpdateParts,
        erased_ite, erased_bind, erased_pure, erase]

theorem Retyped.deletedUris {o o' : Fields} (h : Retyped o o') :
    deletedUris env (.object o') = deletedUris env (.object o) := by
  simp (disch := decide) only [Inbox.deletedUris, h.other]

theorem Respelled.parseDelete (h : Respelled a a') :
    erased (parseDelete env a') = erased (parseDelete env a) := by
  simp (disch := decide) only [Inbox.parseDelete, h.other, erased_bind]
  rcases h.object with ⟨ha, ha'⟩ | ⟨v, v', ha, ha', hv⟩
  · rw [ha, ha']
    rfl
  · rw [ha, ha']
    cases hv with
    | plain hv => simp only [okOr_some_bind, erased_ite, erased_pure, erase]
    | @object o o' ho =>
      cases hquote : equalsOrIncludes (get o "type") "QuoteAuthorization" <;>
        simp only [okOr_some_bind, ho.deletedUris, Value.asObject, Option.any_some, ho.includes,
          hquote, Bool.false_eq_true, if_true, if_false, erased_ite, erased_pure, erase]

theorem Respelled.parseQuoteRequest (h : Respelled a a') :
    erased (parseQuoteRequest env a') = erased (parseQuoteRequest env a) := by
  simp (disch := decide) only [Inbox.parseQuoteRequest, h.other, h.requiredUri]

theorem embeddedNote_erased (actorUri : String) (o : Fields) :
    (embeddedNote env actorUri (some (.object o))).map (fun _ => Value.null) =
      if ["Note", "Question"].any (equalsOrIncludes (get o "type"))
        && isOk (validateNoteObject env actorUri o) then some .null else none := by
  rw [embeddedNote]
  split_ifs <;> rfl

theorem Retyped.embeddedNote {o o' : Fields} (h : Retyped o o') (actorUri : String) :
    (embeddedNote env actorUri (some (.object o'))).map (fun _ => Value.null) =
      (embeddedNote env actorUri (some (.object o))).map (fun _ => Value.null) := by
  simp only [embeddedNote_erased, List.any_cons, List.any_nil, h.includes, h.validateNoteObject]
  rfl

theorem Respelled.embeddedNote (h : Respelled a a') (actorUri : String) :
    (embeddedNote env actorUri (get a' "object")).map (fun _ => Value.null) =
      (embeddedNote env actorUri (get a "object")).map (fun _ => Value.null) := by
  rcases h.object with ⟨ha, ha'⟩ | ⟨v, v', ha, ha', hv⟩
  · rw [ha, ha']
  · rw [ha, ha']
    cases hv with
    | plain hv => rfl
    | object ho => exact ho.embeddedNote actorUri

theorem Respelled.parseInteraction (h : Respelled a a') (like : Bool) :
    erased (parseInteraction env a' like) = erased (parseInteraction env a like) := by
  simp (disch := decide) only [Inbox.parseInteraction, h.other, h.requiredUri, h.embeddedNote,
    erased_bind, erased_ite, erased_pure, erase]

theorem Respelled.parseFlag (h : Respelled a a') :
    erased (parseFlag env a') = erased (parseFlag env a) := by
  simp (disch := decide) only [Inbox.parseFlag, h.other, erased_bind]
  rcases h.object with ⟨ha, ha'⟩ | ⟨v, v', ha, ha', hv⟩
  · rw [ha, ha']
  · rw [ha, ha']
    cases hv with
    | plain hv => rfl
    | object ho =>
      simp only [okOr_some_bind, Value.asArray, Option.getD_none, List.length_singleton, List.filterMap_cons,
        List.filterMap_nil, ho.valueOrId]
      rfl

theorem Respelled.parsePlain (h : Respelled a a')
    (make : String → String → String → InboxActivity) :
    erased (parsePlain env a' make) = erased (parsePlain env a make) := by
  simp (disch := decide) only [Inbox.parsePlain, h.other, h.requiredUri]

/-! ### The parsers that read the embedded type with `as_str` -/

/-- Both spellings of an embedded type read the same: as strings, or by the fallback to `Follow`. -/
def ReadsAlike (o o' : Fields) : Prop :=
  (get o' "type").bind Value.asStr = (get o "type").bind Value.asStr ∨
    (get o' "type").bind Value.asStr = none ∧ (get o "type").bind Value.asStr = some "Follow"

theorem Retyped.embeddedRelation {o o' : Fields} (h : Retyped o o')
    (make : String → Option String → Option String → InboxActivity) :
    embeddedRelation env o' make = embeddedRelation env o make := by
  simp (disch := decide) only [Inbox.embeddedRelation, h.other, h.presentUri]

theorem Retyped.undoInteraction {o o' : Fields} (h : Retyped o o') (actorUri : String)
    (undo : String → String → InboxActivity) :
    undoInteraction env actorUri o' undo = undoInteraction env actorUri o undo := by
  simp (disch := decide) only [Inbox.undoInteraction, h.other, h.presentUri]

/-- A decision is parsed alike when the embedded types read alike, and also about a quote request. -/
theorem Respelled.parseFollowDecision (h : Respelled a a') (accepted : Bool)
    (hread : ∀ o o', get a "object" = some (.object o) → get a' "object" = some (.object o') →
      ReadsAlike o o' ∨ equalsOrIncludes (get o "type") "QuoteRequest" = true) :
    erased (parseFollowDecision env a' accepted) = erased (parseFollowDecision env a accepted) := by
  simp (disch := decide) only [Inbox.parseFollowDecision, h.other, erased_bind]
  rcases h.object with ⟨ha, ha'⟩ | ⟨v, v', ha, ha', hv⟩
  · rw [ha, ha']
  · have hread := hread
    rw [ha, ha'] at hread ⊢
    cases hv with
    | plain hv => rfl
    | @object o o' ho =>
      cases hquote : equalsOrIncludes (get o "type") "QuoteRequest" with
      | true =>
        simp (disch := decide) only [okOr_some_bind, Value.asObject, Option.any_some,
          Option.getD_some, ho.includes, hquote, ho.other, ho.presentUri, if_true]
      | false =>
        simp only [okOr_some_bind, Value.asObject, Option.any_some, ho.includes, hquote,
          Value.isString, Value.asStr, Option.isSome_none, Bool.false_and, Bool.false_eq_true,
          if_false, ho.embeddedRelation]
        rcases hread o o' rfl rfl with (halike | ⟨hnone, hfollow⟩) | hyes
        · rw [halike]
        · rw [hnone, hfollow]
          rfl
        · exact absurd hyes (by rw [hquote]; decide)

/-- An undo is parsed alike when the embedded types read alike. -/
theorem Respelled.parseUndo (h : Respelled a a')
    (hread : ∀ o o', get a "object" = some (.object o) → get a' "object" = some (.object o') →
      ReadsAlike o o') :
    erased (parseUndo env a') = erased (parseUndo env a) := by
  simp (disch := decide) only [Inbox.parseUndo, h.other, erased_bind]
  rcases h.object with ⟨ha, ha'⟩ | ⟨v, v', ha, ha', hv⟩
  · rw [ha, ha']
  · have hread := hread
    rw [ha, ha'] at hread ⊢
    cases hv with
    | plain hv => rfl
    | @object o o' ho =>
      simp only [okOr_some_bind, ho.embeddedRelation, ho.undoInteraction]
      rcases hread o o' rfl rfl with halike | ⟨hnone, hfollow⟩
      · rw [halike]
      · rw [hnone, hfollow]
        rfl

/-! ### When the spelling matters -/

/-- The fallback makes a relation out of the object, whatever its type was. -/
theorem embeddedRelation_ok {o : Fields}
    {make : String → Option String → Option String → InboxActivity} {activity : InboxActivity}
    (h : embeddedRelation env o make = .ok activity) :
    ∃ uri targetUri nestedActorUri, activity = make uri targetUri nestedActorUri := by
  obtain ⟨uri, -, h⟩ := bind_eq_ok h
  obtain ⟨targetUri, -, h⟩ := bind_eq_ok h
  obtain ⟨nestedActorUri, -, h⟩ := bind_eq_ok h
  exact ⟨uri, targetUri, nestedActorUri, (Except.ok.inj h).symm⟩

theorem undoInteraction_ok {o : Fields} {actorUri : String} {undo : String → String → InboxActivity}
    {activity : InboxActivity} (h : undoInteraction env actorUri o undo = .ok activity) :
    ∃ activityUri objectUri, activity = undo activityUri objectUri := by
  obtain ⟨activityUri, -, h⟩ := bind_eq_ok h
  obtain ⟨objectUri, -, h⟩ := bind_eq_ok h
  obtain ⟨nestedActorUri, -, h⟩ := bind_eq_ok h
  obtain ⟨-, -, h⟩ := bind_eq_ok h
  exact ⟨activityUri, objectUri, (Except.ok.inj h).symm⟩

/-- A decision about an object of no type that `as_str` sees is a decision about a follow. -/
theorem parseFollowDecision_fallback {accepted : Bool} {o : Fields} {activity : InboxActivity}
    (hobject : get a "object" = some (.object o))
    (hquote : equalsOrIncludes (get o "type") "QuoteRequest" = false)
    (hnone : (get o "type").bind Value.asStr = none)
    (h : parseFollowDecision env a accepted = .ok activity) :
    ∃ actorUri followUri targetUri nestedActorUri,
      activity = if accepted then .accept actorUri followUri targetUri nestedActorUri
        else .reject actorUri followUri targetUri nestedActorUri := by
  obtain ⟨actorUri, -, h⟩ := bind_eq_ok h
  rw [hobject] at h
  simp only [okOr_some_bind, Value.asObject, Option.any_some, hquote, Value.isString, Value.asStr,
    Option.isSome_none, Bool.false_and, Bool.false_eq_true, if_false] at h
  rw [hnone] at h
  exact ⟨actorUri, embeddedRelation_ok h⟩

/-- A decision about an object of another type is not supported. -/
theorem parseFollowDecision_other {accepted : Bool} {o : Fields} {kind : String}
    {activity : InboxActivity} (hobject : get a "object" = some (.object o))
    (htype : get o "type" = some (.string kind)) (hfollow : kind ≠ "Follow")
    (hquote : kind ≠ "QuoteRequest") (h : parseFollowDecision env a accepted = .ok activity) :
    activity = .unsupported := by
  obtain ⟨actorUri, -, h⟩ := bind_eq_ok h
  have hno : equalsOrIncludes (get o "type") "QuoteRequest" = false := by
    rw [htype]; exact beq_false_of_ne hquote
  rw [hobject] at h
  simp only [okOr_some_bind, Value.asObject, Option.any_some, hno, Value.isString, Value.asStr,
    Option.isSome_none, Bool.false_and, Bool.false_eq_true, if_false] at h
  rw [htype] at h
  simp only [Option.bind_some, Value.asStr, if_neg hfollow] at h
  exact (Except.ok.inj h).symm

theorem parseUndo_fallback {o : Fields} {activity : InboxActivity}
    (hobject : get a "object" = some (.object o))
    (hnone : (get o "type").bind Value.asStr = none) (h : parseUndo env a = .ok activity) :
    ∃ actorUri followUri targetUri nestedActorUri,
      activity = .undoFollow actorUri followUri targetUri nestedActorUri := by
  obtain ⟨actorUri, -, h⟩ := bind_eq_ok h
  rw [hobject] at h
  simp only [okOr_some_bind, hnone] at h
  exact ⟨actorUri, embeddedRelation_ok h⟩

/-- Undoing an object of another type undoes no follow. -/
theorem parseUndo_other {o : Fields} {kind : String} {activity : InboxActivity}
    (hobject : get a "object" = some (.object o)) (htype : get o "type" = some (.string kind))
    (hfollow : kind ≠ "Follow") (h : parseUndo env a = .ok activity) :
    ∀ actorUri followUri targetUri nestedActorUri,
      erase activity ≠ .undoFollow actorUri followUri targetUri nestedActorUri := by
  obtain ⟨actorUri, -, h⟩ := bind_eq_ok h
  rw [hobject] at h
  simp only [okOr_some_bind, htype, Option.bind_some, Value.asStr, if_neg hfollow] at h
  intro actorUri' followUri targetUri nestedActorUri heq
  split_ifs at h
  · obtain ⟨_, _, _, rfl⟩ := embeddedRelation_ok h
    simp [erase] at heq
  · obtain ⟨_, _, rfl⟩ := undoInteraction_ok h
    simp [erase] at heq
  · obtain ⟨_, _, rfl⟩ := undoInteraction_ok h
    simp [erase] at heq
  · obtain rfl := Except.ok.inj h
    simp [erase] at heq

theorem Respelled.kindOf (h : Respelled a a') : kindOf a' = kindOf a := by
  rw [Inbox.kindOf, Inbox.kindOf]
  exact congrArg (kinds.find? ·) (funext fun kind => h.includes kind.name)

/-- An embedded type that is no string is spelled as it was, or wrapped; either way `as_str` finds
    nothing. -/
theorem readsAlike_wrapType {o : Fields}
    (h : ∀ kind, get o "type" = some (.string kind) → kind = "Follow") :
    ReadsAlike o (wrapType o) := by
  rw [ReadsAlike, asStr_wrapType]
  cases htype : get o "type" with
  | none => exact Or.inl rfl
  | some v =>
    cases v with
    | string kind => exact Or.inr ⟨rfl, by rw [h kind htype]; rfl⟩
    | _ => exact Or.inl rfl

/-- Activities that are not misread are parsed alike however their types are spelled. -/
theorem parseObject_respelled (outer embedded : Bool) (a : Fields)
    (hread : ¬ (embedded = true ∧ Misread a)) :
    erased (parseObject env (rewriteTypes outer embedded a)) = erased (parseObject env a) := by
  have h := respelled_rewriteTypes outer embedded a
  have hobject := get_rewriteTypes_object outer embedded a
  -- what the two parsers that read the type with `as_str` need to know about it
  have hwrap : ∀ o o', get a "object" = some (.object o) →
      get (rewriteTypes outer embedded a) "object" = some (.object o') →
      ReadsAlike o o' ∨ embedded = true ∧ o' = wrapType o := by
    intro o o' ho ho'
    rw [hobject, ho, Option.map_some] at ho'
    cases embedded with
    | true =>
      obtain rfl : wrapType o = o' := by simpa [wrapObject] using ho'
      exact Or.inr ⟨rfl, rfl⟩
    | false =>
      obtain rfl : o = o' := by simpa using ho'
      exact Or.inl (Or.inl rfl)
  rw [parseObject, parseObject, h.kindOf, h.typed]
  cases hkind : kindOf a with
  | none => rfl
  | some kind =>
    have hdecision : (kind = .accept ∨ kind = .reject) →
        ∀ o o', get a "object" = some (.object o) →
        get (rewriteTypes outer embedded a) "object" = some (.object o') →
        ReadsAlike o o' ∨ equalsOrIncludes (get o "type") "QuoteRequest" = true := by
      intro hk o o' ho ho'
      rcases hwrap o o' ho ho' with halike | ⟨hembedded, rfl⟩
      · exact Or.inl halike
      · rcases hq : equalsOrIncludes (get o "type") "QuoteRequest" with - | -
        · refine Or.inl (readsAlike_wrapType fun t ht => ?_)
          by_contra hfollow
          refine hread ⟨hembedded, o, t, ho, ht, hfollow, Or.inr ⟨?_, ?_⟩⟩
          · rw [hkind]
            exact hk.imp (congrArg some) (congrArg some)
          · rintro rfl
            rw [ht] at hq
            exact absurd hq (by decide)
        · exact Or.inr rfl
    cases kind with
    | create => exact h.parseNoteCreate
    | update => exact h.parseUpdate
    | delete => exact h.parseDelete
    | quoteRequest => exact h.parseQuoteRequest
    | like => exact h.parseInteraction true
    | announce => exact h.parseInteraction false
    | follow => exact h.parsePlain _
    | flag => exact h.parseFlag
    | block => exact h.parsePlain _
    | accept => exact h.parseFollowDecision true (hdecision (Or.inl rfl))
    | reject => exact h.parseFollowDecision false (hdecision (Or.inr rfl))
    | undo =>
      refine h.parseUndo fun o o' ho ho' => ?_
      rcases hwrap o o' ho ho' with halike | ⟨hembedded, rfl⟩
      · exact halike
      · refine readsAlike_wrapType fun t ht => ?_
        by_contra hfollow
        exact hread ⟨hembedded, o, t, ho, ht, hfollow, Or.inl hkind⟩

/-- A misread activity is parsed into something else once its embedded type is wrapped. -/
theorem parseObject_misread (outer : Bool) {a : Fields} (hmis : Misread a)
    {activity activity' : InboxActivity} (h : parseObject env a = .ok activity)
    (h' : parseObject env (rewriteTypes outer true a) = .ok activity') :
    erase activity' ≠ erase activity := by
  obtain ⟨o, kind, ho, htype, hfollow, hkind⟩ := hmis
  have hres := respelled_rewriteTypes outer true a
  have ho' : get (rewriteTypes outer true a) "object" = some (.object (wrapType o)) := by
    rw [get_rewriteTypes_object, ho]; rfl
  have hnone := asStr_wrapType o
  rw [parseObject] at h
  rw [parseObject, hres.kindOf] at h'
  rcases hkind with hundo | ⟨hdecision, hquote⟩
  · rw [hundo] at h h'
    obtain ⟨_, _, _, _, rfl⟩ := parseUndo_fallback ho' hnone h'
    exact fun heq => parseUndo_other ho htype hfollow h _ _ _ _ heq.symm
  · have hno : equalsOrIncludes (get (wrapType o) "type") "QuoteRequest" = false := by
      rw [(retyped_wrapType o).includes, htype]; exact beq_false_of_ne hquote
    rcases hdecision with hkind | hkind <;> rw [hkind] at h h'
    · obtain ⟨_, _, _, _, rfl⟩ := parseFollowDecision_fallback ho' hno hnone h'
      rw [parseFollowDecision_other ho htype hfollow hquote h]
      simp [erase]
    · obtain ⟨_, _, _, _, rfl⟩ := parseFollowDecision_fallback ho' hno hnone h'
      rw [parseFollowDecision_other ho htype hfollow hquote h]
      simp [erase]

/-- CORRECT (type arrays): an accepted activity is parsed into the same activity, raw JSON aside,
    when scalar types are written as arrays, exactly unless its embedded type was rewritten and is
    one that is misread. -/
theorem parseActivity_typeArrays_iff (env : Env) (body body' : String) (a : Fields)
    (outer embedded : Bool) (activity : InboxActivity)
    (hbody : env.fromStr body = some (.object a))
    (hbody' : env.fromStr body' = some (.object (rewriteTypes outer embedded a)))
    (hok : parseActivity env body = .ok activity) :
    (∃ activity', parseActivity env body' = .ok activity' ∧ erase activity' = erase activity) ↔
      ¬ (embedded = true ∧ Misread a) := by
  have hobject : parseObject env a = .ok activity := by
    rw [parseActivity, hbody] at hok; exact hok
  have hbody' : parseActivity env body' = parseObject env (rewriteTypes outer embedded a) := by
    rw [parseActivity, hbody']
  rw [hbody']
  constructor
  · rintro ⟨activity', h', heq⟩ ⟨rfl, hmis⟩
    exact parseObject_misread outer hmis hobject h' heq
  · intro hread
    exact (exists_erase_eq_iff hobject).mpr (parseObject_respelled outer embedded a hread)

/-- The entries of an `Undo` of an object with the given type. -/
def undoOf (type : Value) : Fields :=
  [("actor", .string "https://r.example/a"),
    ("object", .object [("id", .string "https://r.example/1"), ("type", type)]),
    ("type", .string "Undo")]

/-- Its JSON text, from that of the type. -/
def undoText (type : String) : String :=
  "\x7b\"actor\":\"https://r.example/a\",\"object\":\x7b\"id\":\"https://r.example/1\",\"type\":" ++
    type ++ "\x7d,\"type\":\"Undo\"\x7d"

/-- Parsing as it is on an `Undo` with its type spelled both ways, and on URLs of one host. -/
def undoEnv (kind : String) : Env where
  fromStr body :=
    if body = undoText ("\"" ++ kind ++ "\"") then some (.object (undoOf (.string kind)))
    else if body = undoText ("[\"" ++ kind ++ "\"]") then
      some (.object (undoOf (.array [.string kind])))
    else none
  parseUrl url :=
    if "https://r.example/".toList.isPrefixOf url.toList then some ⟨"https", some "r.example"⟩
    else none

theorem parseActivity_typeArrays_iff_follow :
    ∃ activity', parseActivity (undoEnv "Follow") (undoText "[\"Follow\"]") = .ok activity' ∧
      erase activity' =
        erase (.undoFollow "https://r.example/a" "https://r.example/1" none none) := by
  refine (parseActivity_typeArrays_iff (undoEnv "Follow") (undoText "\"Follow\"")
    (undoText "[\"Follow\"]") (undoOf (.string "Follow")) false true _ rfl rfl rfl).mpr ?_
  rintro ⟨-, o, kind, ho, htype, hfollow, -⟩
  obtain rfl : [("id", Value.string "https://r.example/1"), ("type", .string "Follow")] = o :=
    Value.object.inj (Option.some.inj ho)
  exact hfollow (Value.string.inj (Option.some.inj htype)).symm

/-- An `Undo` of a `Block` whose embedded type is written as an array undoes a follow. -/
theorem typeArrays_misread_block :
    ¬ ∀ (env : Env) (body body' : String) (a : Fields) (outer embedded : Bool)
      (activity : InboxActivity), env.fromStr body = some (.object a) →
      env.fromStr body' = some (.object (rewriteTypes outer embedded a)) →
      parseActivity env body = .ok activity →
      ∃ activity', parseActivity env body' = .ok activity' ∧ erase activity' = erase activity := by
  intro h
  obtain ⟨activity', h', heq⟩ := h (undoEnv "Block") (undoText "\"Block\"")
    (undoText "[\"Block\"]") (undoOf (.string "Block")) false true
    (.undoBlock "https://r.example/a" "https://r.example/1" none none) rfl rfl rfl
  have hfollow : parseActivity (undoEnv "Block") (undoText "[\"Block\"]") =
      .ok (.undoFollow "https://r.example/a" "https://r.example/1" none none) := rfl
  rw [hfollow] at h'
  obtain rfl := Except.ok.inj h'
  simp [erase] at heq

end Rustodon.Inbox
