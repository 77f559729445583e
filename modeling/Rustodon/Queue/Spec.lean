import Rustodon.Schemes.Checked
import Rustodon.Schemes.Json
import Rustodon.Schemes.Utf8
import Mathlib.Data.Int.Notation
import Mathlib.Tactic.SplitIfs

/-! @src jobs.rs | name:Job specifications | scheme:json | family:queue

    What is enqueued, how it is written into the outbox and read back, and the metadata of ordered
    jobs. Times are microseconds since the epoch. -/

namespace Rustodon.Queue
open Schemes.Checked Schemes.Json Schemes.Utf8

inductive Lane where
  | ingress | core | push | pull | mail | maintenance
  deriving DecidableEq, Repr

inductive JobError where
  | conflict (message : String)
  | invalidInput (message : String)
  | invalidData (message : String)
  deriving DecidableEq, Repr

abbrev Checked := Except JobError

/-- What the queue takes from other libraries: the RFC 3339 form of an instant and its parser,
    SHA-256 of a text, and the text of a `jsonb` array or object. -/
structure Env where
  toRfc3339 : ℤ → String
  parseRfc3339 : String → Option ℤ
  sha256 : String → List UInt8
  jsonbText : Value → String

def Lane.asStr : Lane → String
  | .ingress => "ingress"
  | .core => "core"
  | .push => "push"
  | .pull => "pull"
  | .mail => "mail"
  | .maintenance => "maintenance"

def Lane.fromStr (value : String) : Checked Lane :=
  if value = "ingress" then .ok .ingress
  else if value = "core" then .ok .core
  else if value = "push" then .ok .push
  else if value = "pull" then .ok .pull
  else if value = "mail" then .ok .mail
  else if value = "maintenance" then .ok .maintenance
  else .error (.invalidData "unknown durable-job lane")

structure JobSpec where
  lane : Lane
  kind : String
  arguments : Value
  logicalKey : Option String
  runAt : ℤ
  maxAttempts : Int32

def activitypubInboxOrderingKind : String := "rustodon.activitypub.inbox"

def activitypubDeliveryOrderingKind : String := "rustodon.activitypub.delivery"

def activitypubDeliveryJobKind : String := "rustodon.activitypub.deliver"

def streamEventKind : String := "rustodon.mastodon.stream_event"

def orderingKeyField : String := "_rustodon_ordering_key"

def orderingPredecessorField : String := "_rustodon_ordering_predecessor"

def JobSpec.validate (spec : JobSpec) : Checked Unit := do
  failIf (!(decide (1 ≤ spec.kind.utf8ByteSize) && decide (spec.kind.utf8ByteSize ≤ 128)))
    (.invalidInput "job kind must contain 1-128 bytes")
  failIf (spec.logicalKey.any fun key =>
      !(decide (1 ≤ key.utf8ByteSize) && decide (key.utf8ByteSize ≤ 1024)))
    (.invalidInput "logical key must contain 1-1024 bytes")
  failIf (decide (spec.maxAttempts.toInt ≤ 0)) (.invalidInput "max attempts must be positive")

/-! ### The outbox -/

variable (env : Env)

def payloadFields (spec : JobSpec) : Fields :=
  [("lane", .string spec.lane.asStr), ("arguments", spec.arguments),
    ("run_at", .string (env.toRfc3339 spec.runAt)),
    ("max_attempts", .number (.int spec.maxAttempts.toInt))]

/-- The payload that `record_outbox_in` and `record_outbox_once_in` write. -/
def outboxPayload (spec : JobSpec) : Value := .object (payloadFields env spec)

/-- `i32::try_from`. -/
def toI32 (n : ℤ) : Option Int32 :=
  if -2 ^ 31 ≤ n ∧ n < 2 ^ 31 then some (Int32.ofInt n) else none

def outboxSpec (kind : String) (logicalKey : Option String) (payload : Value) :
    Checked JobSpec := do
  let object ← okOr payload.asObject (.invalidData "outbox payload must be an object")
  let lane ← okOr ((get object "lane").bind Value.asStr) (.invalidData "outbox lane is missing")
  let lane ← Lane.fromStr lane
  let arguments ← okOr (get object "arguments") (.invalidData "outbox arguments are missing")
  let runAt ← okOr ((get object "run_at").bind Value.asStr)
    (.invalidData "outbox run_at is missing")
  let runAt ← okOr (env.parseRfc3339 runAt) (.invalidData "outbox run_at is invalid")
  let maxAttempts ← okOr (((get object "max_attempts").bind Value.asI64).bind toI32)
    (.invalidData "outbox max_attempts is invalid")
  let spec : JobSpec := ⟨lane, kind, arguments, logicalKey, runAt, maxAttempts⟩
  spec.validate
  pure spec

/-! ### Ordered jobs -/

/-- `->>`: the text of a field, which `null` does not have. -/
def textOf (arguments : Value) (field : String) : Option String := do
  match ← (← arguments.asObject).lookup field with
  | .null => none
  | .bool b => some (if b then "true" else "false")
  | .number (.int n) => some (toString n)
  | .number (.other text) => some text
  | .string s => some s
  | value => some (env.jsonbText value)

/-- Two hexadecimal digits for each byte. -/
def hex (bytes : List UInt8) : String :=
  String.ofList (bytes.flatMap fun b => [Nat.digitChar (b.toNat / 16), Nat.digitChar (b.toNat % 16)])

def withOrderingMetadata (spec : JobSpec) (orderingKey : List UInt8) (predecessorId : Option ℕ)
    (runAt : ℤ) : Checked JobSpec := do
  let arguments ← okOr spec.arguments.asObject
    (.invalidInput "ordered job arguments must be an object")
  let arguments := insert orderingKeyField (.string (hex orderingKey)) arguments
  let arguments := match predecessorId with
    | some id => insert orderingPredecessorField (.number (.int id)) arguments
    | none => remove orderingPredecessorField arguments
  pure { spec with arguments := .object arguments, runAt := runAt }

def activitypubDeliveryOrderingKey (spec : JobSpec) : Option (List UInt8) := do
  if spec.kind ≠ activitypubDeliveryJobKind then none
  else
    let arguments ← spec.arguments.asObject
    let sourceAccountId ← (← get arguments "source_account_id").asI64
    let inboxUrl ← (← get arguments "inbox_url").asStr
    let inboxUrl := trim inboxUrl.toList
    if inboxUrl.isEmpty then none
    else some (env.sha256
      ("activitypub-delivery:" ++ toString sourceAccountId ++ ":" ++ String.ofList inboxUrl))

/-- The arguments without the metadata of ordered jobs. -/
def plainArguments : Value → Value
  | .object fields => .object (remove orderingKeyField (remove orderingPredecessorField fields))
  | value => value

/-- The ordering key of a job with these arguments. -/
def orderingKeyOf (arguments : Value) : Option String := textOf env arguments orderingKeyField

variable {env} {spec spec' : JobSpec}

theorem Lane.fromStr_asStr (lane : Lane) : Lane.fromStr lane.asStr = .ok lane := by
  cases lane <;> decide

theorem toI32_toInt (n : Int32) : toI32 n.toInt = some n := by
  rw [toI32, if_pos ⟨n.le_toInt, n.toInt_lt⟩, Int32.ofInt_toInt]

theorem asI64_toInt (n : Int32) : (Value.number (.int n.toInt)).asI64 = some n.toInt := by
  have hlow := n.le_toInt
  have hhigh := n.toInt_lt
  rw [Value.asI64, if_pos ⟨by omega, by omega⟩]

theorem get_lane : get (payloadFields env spec) "lane" = some (.string spec.lane.asStr) := rfl

theorem get_arguments : get (payloadFields env spec) "arguments" = some spec.arguments := rfl

theorem get_runAt :
    get (payloadFields env spec) "run_at" = some (.string (env.toRfc3339 spec.runAt)) := rfl

theorem get_maxAttempts : get (payloadFields env spec) "max_attempts" =
    some (.number (.int spec.maxAttempts.toInt)) := rfl

/-- CORRECT (outbox): a payload is read back as the specification that it was written for. -/
theorem outboxSpec_outboxPayload (hvalid : spec.validate = .ok ())
    (htime : env.parseRfc3339 (env.toRfc3339 spec.runAt) = some spec.runAt) :
    outboxSpec env spec.kind spec.logicalKey (outboxPayload env spec) = .ok spec := by
  rw [outboxSpec, outboxPayload, Value.asObject, okOr_some_bind, get_lane, get_arguments,
    get_runAt, get_maxAttempts]
  simp only [Option.bind_some, Value.asStr, okOr_some_bind, Lane.fromStr_asStr, ok_bind, htime,
    asI64_toInt, toI32_toInt, hvalid]
  rfl

/-- Only the kind, the logical key and the number of attempts are validated. -/
theorem validate_congr (hkind : spec'.kind = spec.kind) (hkey : spec'.logicalKey = spec.logicalKey)
    (hmax : spec'.maxAttempts = spec.maxAttempts) : spec'.validate = spec.validate := by
  rw [JobSpec.validate, JobSpec.validate, hkind, hkey, hmax]

/-- What a specification read from the outbox says. -/
theorem outboxSpec_ok {kind : String} {logicalKey : Option String} {payload : Value}
    (h : outboxSpec env kind logicalKey payload = .ok spec) :
    spec.kind = kind ∧ spec.logicalKey = logicalKey ∧ spec.validate = .ok () := by
  obtain ⟨object, -, h⟩ := bind_eq_ok h
  obtain ⟨text, -, h⟩ := bind_eq_ok h
  obtain ⟨lane, -, h⟩ := bind_eq_ok h
  obtain ⟨arguments, -, h⟩ := bind_eq_ok h
  obtain ⟨text', -, h⟩ := bind_eq_ok h
  obtain ⟨runAt, -, h⟩ := bind_eq_ok h
  obtain ⟨maxAttempts, -, h⟩ := bind_eq_ok h
  obtain ⟨_, hvalid, h⟩ := bind_eq_ok h
  obtain rfl := Except.ok.inj h
  exact ⟨rfl, rfl, hvalid⟩

/-! ### The metadata -/

/-- What the metadata of ordered jobs changes. -/
structure Ordered (env : Env) (spec : JobSpec) (orderingKey : List UInt8) (runAt : ℤ)
    (ordered : JobSpec) : Prop where
  lane : ordered.lane = spec.lane
  kind : ordered.kind = spec.kind
  logicalKey : ordered.logicalKey = spec.logicalKey
  maxAttempts : ordered.maxAttempts = spec.maxAttempts
  runAt : ordered.runAt = runAt
  plain : plainArguments ordered.arguments = plainArguments spec.arguments
  key : orderingKeyOf env ordered.arguments = some (hex orderingKey)

theorem textOf_string {fields : Fields} {field text : String}
    (h : get fields field = some (.string text)) :
    textOf env (.object fields) field = some text := by
  have h : fields.lookup field = some (.string text) := h
  simp [textOf, Value.asObject, h]

theorem withOrderingMetadata_ok {orderingKey : List UInt8} {predecessorId : Option ℕ} {runAt : ℤ}
    (h : withOrderingMetadata spec orderingKey predecessorId runAt = .ok spec') :
    Ordered env spec orderingKey runAt spec' := by
  obtain ⟨fields, hfields, h⟩ := bind_eq_ok h
  have hobject : spec.arguments = .object fields := by
    have hfields := okOr_eq_ok hfields
    cases hvalue : spec.arguments with
    | object fields' => rw [hvalue] at hfields; exact congrArg _ (Option.some.inj hfields)
    | _ => rw [hvalue] at hfields; cases hfields
  have hne : orderingPredecessorField ≠ orderingKeyField := by decide
  obtain rfl := Except.ok.inj h
  cases predecessorId with
  | none =>
    exact
      { lane := rfl, kind := rfl, logicalKey := rfl, maxAttempts := rfl, runAt := rfl
        plain := by
          rw [hobject]
          simp only [plainArguments]
          rw [remove_remove_self, remove_remove_comm, remove_insert, remove_remove_comm]
        key := textOf_string (by rw [get_remove_ne hne.symm, get_insert_self]) }
  | some id =>
    exact
      { lane := rfl, kind := rfl, logicalKey := rfl, maxAttempts := rfl, runAt := rfl
        plain := by
          rw [hobject]
          simp only [plainArguments]
          rw [remove_insert, remove_remove_comm, remove_insert, remove_remove_comm]
        key := textOf_string (by rw [get_insert_ne hne.symm, get_insert_self]) }

/-- Arguments with a delivery key are an object, so that the metadata can be added. -/
theorem withOrderingMetadata_delivery {orderingKey : List UInt8}
    (h : activitypubDeliveryOrderingKey env spec = some orderingKey) (predecessorId : Option ℕ)
    (runAt : ℤ) : ∃ ordered,
      withOrderingMetadata spec orderingKey predecessorId runAt = .ok ordered := by
  have hobject : ∃ fields, spec.arguments.asObject = some fields := by
    rw [activitypubDeliveryOrderingKey] at h
    split_ifs at h
    cases hvalue : spec.arguments.asObject with
    | none => simp [hvalue] at h
    | some fields => exact ⟨fields, rfl⟩
  obtain ⟨fields, hfields⟩ := hobject
  rw [withOrderingMetadata, hfields]
  exact ⟨_, rfl⟩

theorem delivery_kind {orderingKey : List UInt8}
    (h : activitypubDeliveryOrderingKey env spec = some orderingKey) :
    spec.kind = activitypubDeliveryJobKind := by
  rw [activitypubDeliveryOrderingKey] at h
  by_contra hne
  rw [if_pos hne] at h
  cases h

theorem digitChar_inj {m n : ℕ} (hm : m < 16) (hn : n < 16)
    (h : Nat.digitChar m = Nat.digitChar n) : m = n := by
  have hall : ∀ m < 16, ∀ n < 16, Nat.digitChar m = Nat.digitChar n → m = n := by decide
  exact hall m hm n hn h

/-- Different keys have different texts. -/
theorem hex_injective : Function.Injective hex := by
  intro xs ys h
  replace h := String.ofList_injective h
  induction xs generalizing ys with
  | nil =>
    cases ys with
    | nil => rfl
    | cons y ys => cases h
  | cons x xs ih =>
    cases ys with
    | nil => cases h
    | cons y ys =>
      simp only [List.flatMap_cons, List.cons_append, List.nil_append, List.cons.injEq] at h
      have hx := x.toNat_lt
      have hy := y.toNat_lt
      have hhigh := digitChar_inj (by omega) (by omega) h.1
      have hlow := digitChar_inj (by omega) (by omega) h.2.1
      have hxy : x = y := UInt8.toNat_inj.mp (by omega)
      rw [hxy, ih h.2.2]

end Rustodon.Queue
