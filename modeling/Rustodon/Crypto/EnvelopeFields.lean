import Rustodon.Crypto.Envelope
import Mathlib.Data.List.Nodup

/-! @src crypto.rs | name:Accepted envelopes | scheme:json-text | family:crypto

    An accepted text is the one object that its envelope makes, with or without the name of the
    encoding, in which no key is written twice. What is encrypted is decrypted. -/

namespace Rustodon.Crypto
open Schemes.Checked Schemes.Json Schemes.JsonText Schemes.JsonMaps Schemes.Matches
open Schemes.Utf8 (Text)
open Schemes.Bytes (Bytes utf8 fromUtf8)

/-! ### Steps -/

theorem requireOneKey_ok {serialized : Text} {key : String} {u : Unit}
    (h : requireOneKey serialized key = .ok u) :
    countMatches (quoted key.toList) serialized = 1 := by
  rw [requireOneKey] at h
  split_ifs at h with hone
  exact hone

theorem stringHeader_ok {headers : Fields} {serialized : Text} {key value : String}
    (h : stringHeader headers serialized key = .ok value) :
    Schemes.Json.get headers key = some (.string value) := by
  have hvalue := (Option.filter_eq_some_iff.mp (okOr_eq_ok h)).1
  rw [Option.bind_eq_some_iff] at hvalue
  obtain ⟨found, hget, hstr⟩ := hvalue
  cases found with
  | string s =>
    rw [hget, ← Option.some.inj hstr]
  | _ => cases hstr

/-- Base64 is accepted in one spelling. -/
theorem decodeBase64_ok {value : String} {bytes : Bytes} (h : decodeBase64 value = .ok bytes) :
    value = encodeBase64 bytes := by
  obtain ⟨decoded, -, h⟩ := bind_eq_ok h
  obtain ⟨u, hcanonical, h⟩ := bind_eq_ok h
  obtain rfl := Except.ok.inj h
  have hsame := failIf_eq_ok hcanonical
  rw [decide_eq_false_iff_not, not_not] at hsame
  exact hsame.symm

theorem requireHeaders_ok {serialized : Text} : ∀ {headers : Fields} {u : Unit},
    requireHeaders serialized headers = .ok u → ∀ field ∈ headers,
      isHeader field.1 = true ∧ countMatches (quoted field.1.toList) serialized = 1
  | [], _, _, field, hfield => by cases hfield
  | (key, value) :: headers, u, h, field, hfield => by
    obtain ⟨u₁, hheader, h⟩ := bind_eq_ok h
    obtain ⟨u₂, hkey, h⟩ := bind_eq_ok h
    rcases List.mem_cons.mp hfield with rfl | hfield
    · refine ⟨?_, requireOneKey_ok hkey⟩
      simpa using failIf_eq_ok hheader
    · exact requireHeaders_ok h field hfield

theorem compressedHeader_ok {headers : Fields} {compressed : Bool}
    (h : compressedHeader headers = .ok compressed) :
    Schemes.Json.get headers "c" = if compressed then some (.bool true) else none := by
  rw [compressedHeader] at h
  split at h
  · next hc =>
    obtain rfl := Except.ok.inj h
    exact hc
  · cases h
  · next hc =>
    obtain rfl := Except.ok.inj h
    exact hc

theorem requireEncoding_ok {headers : Fields} {serialized : Text} {u : Unit}
    (h : requireEncoding headers serialized = .ok u) :
    ∃ encoded : Bool, Schemes.Json.get headers "e" =
      if encoded then some (.string (encodeBase64 utf8Name)) else none := by
  rw [requireEncoding] at h
  split at h
  · next value he =>
    obtain ⟨encoding, hencoding, h⟩ := bind_eq_ok h
    obtain ⟨name, hname, h⟩ := bind_eq_ok h
    have hstr := (Option.filter_eq_some_iff.mp (okOr_eq_ok hencoding)).1
    have hutf8 : name = utf8Name := by simpa using failIf_eq_ok h
    refine ⟨true, ?_⟩
    cases value with
    | string s =>
      obtain rfl := Option.some.inj hstr
      rw [he, decodeBase64_ok hname, hutf8]
      rfl
    | _ => cases hstr
  · next he => exact ⟨false, he⟩

/-! ### Objects -/

/-- The object of an envelope, with or without the name of the encoding. -/
def envelopeHeaders (envelope : Envelope) (encoded : Bool) : Fields :=
  ("at", .string (encodeBase64 envelope.tag)) ::
    ((if envelope.compressed then [("c", .bool true)] else []) ++
      ((if encoded then [("e", .string (encodeBase64 utf8Name))] else []) ++
        [("iv", .string (encodeBase64 envelope.iv))]))

def envelopeObject (envelope : Envelope) (encoded : Bool) : Value :=
  .object [("h", .object (envelopeHeaders envelope encoded)),
    ("p", .string (encodeBase64 envelope.payload))]

theorem sorted_envelopeHeaders (envelope : Envelope) (encoded : Bool) :
    Sorted (envelopeHeaders envelope encoded) := by
  have hkeys : ∀ compressed encoded : Bool, (("at" :: ((if compressed then ["c"] else []) ++
      ((if encoded then ["e"] else []) ++ ["iv"]))) : List String).Pairwise (· < ·) := by
    decide
  obtain ⟨payload, iv, tag, compressed⟩ := envelope
  refine List.pairwise_map.mp ?_
  have hmap : (envelopeHeaders ⟨payload, iv, tag, compressed⟩ encoded).map Prod.fst =
      "at" :: ((if compressed then ["c"] else []) ++ ((if encoded then ["e"] else []) ++ ["iv"])) := by
    cases compressed <;> cases encoded <;> rfl
  rw [hmap]
  exact hkeys compressed encoded

theorem get_if (condition : Bool) (k key : String) (v : Value) (fields : Fields) :
    Schemes.Json.get ((if condition then [(k, v)] else []) ++ fields) key =
      if key = k then (if condition then some v else Schemes.Json.get fields key)
      else Schemes.Json.get fields key := by
  cases condition with
  | false => simp
  | true => exact get_cons key k v fields

theorem get_envelopeHeaders (envelope : Envelope) (encoded : Bool) (key : String) :
    Schemes.Json.get (envelopeHeaders envelope encoded) key =
      if key = "at" then some (.string (encodeBase64 envelope.tag))
      else if key = "c" then (if envelope.compressed then some (.bool true) else none)
      else if key = "e" then (if encoded then some (.string (encodeBase64 utf8Name)) else none)
      else if key = "iv" then some (.string (encodeBase64 envelope.iv)) else none := by
  have hce : ("c" : String) ≠ "e" ∧ ("c" : String) ≠ "iv" ∧ ("e" : String) ≠ "iv" := by decide
  rw [envelopeHeaders, get_cons, get_if, get_if, get_cons]
  by_cases hc : key = "c"
  · subst hc
    simp [hce.1, hce.2.1, Schemes.Json.get]
  · by_cases he : key = "e"
    · subst he
      simp [hce.2.2, Schemes.Json.get]
    · simp [hc, he, Schemes.Json.get]

/-- The members of an accepted text are told by the lookups that have been made. -/
theorem headers_eq {envelope : Envelope} {encoded : Bool} {headers : Fields}
    (hsorted : Sorted headers) (hkeys : ∀ field ∈ headers, isHeader field.1 = true)
    (hiv : Schemes.Json.get headers "iv" = some (.string (encodeBase64 envelope.iv)))
    (hat : Schemes.Json.get headers "at" = some (.string (encodeBase64 envelope.tag)))
    (hc : Schemes.Json.get headers "c" = if envelope.compressed then some (.bool true) else none)
    (he : Schemes.Json.get headers "e" =
      if encoded then some (.string (encodeBase64 utf8Name)) else none) :
    headers = envelopeHeaders envelope encoded := by
  refine eq_of_get hsorted (sorted_envelopeHeaders envelope encoded) fun key => ?_
  rw [get_envelopeHeaders]
  by_cases h₁ : key = "at"
  · rw [if_pos h₁, h₁, hat]
  rw [if_neg h₁]
  by_cases h₂ : key = "c"
  · rw [if_pos h₂, h₂, hc]
  rw [if_neg h₂]
  by_cases h₃ : key = "e"
  · rw [if_pos h₃, h₃, he]
  rw [if_neg h₃]
  by_cases h₄ : key = "iv"
  · rw [if_pos h₄, h₄, hiv]
  -- no other key is a header
  rw [if_neg h₄, Schemes.Json.get, List.lookup_eq_none_iff]
  intro field hfield
  have hheader := hkeys field hfield
  simp only [isHeader, Bool.or_eq_true, beq_iff_eq] at hheader
  rw [bne_iff_ne]
  rintro rfl
  tauto

theorem object_eq {object headers : Fields} {payload : Bytes} (hsorted : Sorted object)
    (hlength : object.length = 2)
    (hp : Schemes.Json.get object "p" = some (.string (encodeBase64 payload)))
    (hh : Schemes.Json.get object "h" = some (.object headers)) :
    object = [("h", .object headers), ("p", .string (encodeBase64 payload))] := by
  obtain ⟨⟨k, v⟩, ⟨k', v'⟩, rfl⟩ := List.length_eq_two.mp hlength
  have hlt : k < k' := by simpa [Sorted] using hsorted
  have hne : ("p" : String) ≠ "h" ∧ ¬ ("p" : String) < "h" := by decide
  have hfind : ∀ key value, Schemes.Json.get [(k, v), (k', v')] key = some value →
      (key = k ∧ value = v) ∨ (key = k' ∧ value = v') := by
    intro key value h
    rw [get_cons, get_cons] at h
    split_ifs at h with h₁ h₂
    · exact .inl ⟨h₁, (Option.some.inj h).symm⟩
    · exact .inr ⟨h₂, (Option.some.inj h).symm⟩
    · cases h
  obtain ⟨hp, hvalue⟩ | ⟨hp, hvalue⟩ := hfind _ _ hp
  · obtain ⟨hh, -⟩ | ⟨hh, -⟩ := hfind _ _ hh
    · exact absurd (hp.trans hh.symm) hne.1
    · rw [← hp, ← hh] at hlt
      exact absurd hlt hne.2
  · obtain ⟨hh, hvalue'⟩ | ⟨hh, -⟩ := hfind _ _ hh
    · rw [hp, hvalue, hh, hvalue']
    · exact absurd (hp.trans hh.symm) hne.1

/-! ### Texts -/

/-- No key is written twice without an escape. -/
def LiteralKeysDistinct (members : List (Text × Doc)) : Prop :=
  ((members.map Prod.fst).filter fun raw => !raw.contains '\\').Nodup

theorem mem_of_get {fields : Fields} {key : String} {value : Value}
    (h : Schemes.Json.get fields key = some value) : (key, value) ∈ fields := by
  obtain ⟨before, after, rfl, -⟩ := List.lookup_eq_some_iff.mp h
  simp

/-- Keys that are searched for are written once. -/
theorem literalKeysDistinct {serialized before after : Text} {members : List (Text × Doc)}
    (htext : serialized = before ++ (printMembers members ++ after)) {entries : Fields}
    (hentries : memberValues members = some entries)
    (hone : ∀ field ∈ collect entries, countMatches (quoted field.1.toList) serialized = 1) :
    LiteralKeysDistinct members := by
  rw [LiteralKeysDistinct, List.nodup_iff_count_le_one]
  intro raw
  by_cases hliteral : '\\' ∈ raw
  · refine (Nat.le_zero.mpr (List.count_eq_zero_of_not_mem fun hmem => ?_)).trans (Nat.zero_le 1)
    have hkept := (List.mem_filter.mp hmem).2
    simp [hliteral] at hkept
  · refine (List.Sublist.count_le raw List.filter_sublist).trans ?_
    by_cases hmem : raw ∈ members.map Prod.fst
    · have hfound := get_ne_none_of_member (unescape_literal hliteral) hentries hmem
      rw [← get_collect] at hfound
      obtain ⟨value, hvalue⟩ := Option.ne_none_iff_exists'.mp hfound
      have hcount := hone (String.ofList raw, value) (mem_of_get hvalue)
      rw [String.toList_ofList] at hcount
      rw [← hcount, htext]
      exact (count_le_countMatches raw after members).trans
        (countMatches_le_append (quoted_ne_nil raw) before _)
    · rw [List.count_eq_zero_of_not_mem hmem]
      exact Nat.zero_le 1

theorem docValue_object {doc : Doc} {fields : Fields} (h : docValue doc = some (.object fields)) :
    ∃ members entries, doc = .object members ∧ memberValues members = some entries ∧
      fields = collect entries := by
  cases doc with
  | object members =>
    rw [docValue, Option.bind_eq_some_iff] at h
    obtain ⟨entries, hentries, h⟩ := h
    refine ⟨members, entries, rfl, hentries, ?_⟩
    cases entries with
    | nil => exact (Value.object.inj (Option.some.inj h)).symm
    | cons entry rest =>
      obtain ⟨key, value⟩ := entry
      rw [objectValue.eq_def] at h
      dsimp only at h
      by_cases htoken : key = numberToken
      · rw [if_pos htoken] at h
        split at h
        · split_ifs at h
          cases h
        · cases h
      · rw [if_neg htoken] at h
        exact (Value.object.inj (Option.some.inj h)).symm
  | null => cases h
  | bool b => cases h
  | number text => cases h
  | string raw => simp [docValue] at h
  | array items => simp [docValue] at h

theorem compact_of_bytes {serialized : Text}
    (h : (utf8 serialized).any isAsciiWhitespace = false) : Compact serialized := by
  intro c hc
  by_contra hspace
  rw [Bool.not_eq_false, isWhitespace] at hspace
  simp only [Bool.or_eq_true, beq_iff_eq] at hspace
  rw [List.any_eq_false] at h
  have hascii : c.toNat < 128 := by
    rcases hspace with ((rfl | rfl) | rfl) | rfl <;> decide
  have hmem : UInt8.ofNat c.toNat ∈ utf8 serialized :=
    List.mem_flatMap.mpr ⟨c, hc, by rw [Schemes.Bytes.utf8_ascii hascii]; exact List.mem_singleton_self _⟩
  refine h _ hmem ?_
  rcases hspace with ((rfl | rfl) | rfl) | rfl <;> decide

/-- What is known of an accepted text. -/
structure Accepted (serialized : Text) (envelope : Envelope) : Prop where
  iv_length : envelope.iv.length = gcmIvLength
  tag_length : envelope.tag.length = gcmTagLength
  value : ∃ encoded, fromStr serialized = some (envelopeObject envelope encoded)
  keys : ∃ members headers, document serialized = some (.object members) ∧
    lastMember ['h'] members = some (.object headers) ∧ LiteralKeysDistinct members ∧
    LiteralKeysDistinct headers

theorem accepted_of_parseEnvelope {serialized : Text} {envelope : Envelope}
    (h : parseEnvelope serialized = .ok envelope) : Accepted serialized envelope := by
  obtain ⟨u, hbytes, h⟩ := bind_eq_ok h
  obtain ⟨value, hvalue, h⟩ := bind_eq_ok h
  obtain ⟨object, hobject, h⟩ := bind_eq_ok h
  obtain ⟨u₁, hp, h⟩ := bind_eq_ok h
  obtain ⟨u₂, hh, h⟩ := bind_eq_ok h
  obtain ⟨payloadText, hpayload, h⟩ := bind_eq_ok h
  obtain ⟨headers, hheaders, h⟩ := bind_eq_ok h
  obtain ⟨u₃, hkeys, h⟩ := bind_eq_ok h
  obtain ⟨ivText, hiv, h⟩ := bind_eq_ok h
  obtain ⟨tagText, htag, h⟩ := bind_eq_ok h
  obtain ⟨compressed, hcompressed, h⟩ := bind_eq_ok h
  obtain ⟨u₄, hencoding, h⟩ := bind_eq_ok h
  obtain ⟨payload, hpayload', h⟩ := bind_eq_ok h
  obtain ⟨iv, hiv', h⟩ := bind_eq_ok h
  obtain ⟨tag, htag', h⟩ := bind_eq_ok h
  obtain ⟨u₅, hivLength, h⟩ := bind_eq_ok h
  obtain ⟨u₆, htagLength, h⟩ := bind_eq_ok h
  obtain rfl := Except.ok.inj h
  have hvalue := okOr_eq_ok hvalue
  obtain ⟨hobject, hlength⟩ := Option.filter_eq_some_iff.mp (okOr_eq_ok hobject)
  obtain ⟨hheaders, -⟩ := Option.filter_eq_some_iff.mp (okOr_eq_ok hheaders)
  obtain ⟨encoded, hencoded⟩ := requireEncoding_ok hencoding
  have hkeys := requireHeaders_ok hkeys
  -- the value is an object of sorted members
  obtain rfl : value = .object object := by
    cases value with
    | object fields => rw [Option.some.inj hobject]
    | _ => cases hobject
  obtain ⟨doc, hdoc, hdocValue⟩ := Option.bind_eq_some_iff.mp hvalue
  obtain ⟨members, entries, rfl, hentries, rfl⟩ := docValue_object hdocValue
  have hprint := print_of_document (compact_of_bytes (failIf_eq_ok hbytes)) hdoc
  have hget : Schemes.Json.get (collect entries) "h" = some (.object headers) := by
    obtain ⟨found, hfound, hfields⟩ := Option.bind_eq_some_iff.mp hheaders
    cases found with
    | object fields => rw [hfound, ← Option.some.inj hfields]
    | _ => cases hfields
  have hpayload := stringHeader_ok hpayload
  rw [decodeBase64_ok hpayload'] at hpayload
  have hobject := object_eq (sorted_collect entries) (by simpa using hlength) hpayload hget
  -- so are the headers, in the member that counts
  have hlast := get_lastMember "h" hentries
  rw [← get_collect, hget, Option.map_some, Option.map_eq_some_iff] at hlast
  obtain ⟨doc', hlast, hdocValue'⟩ := hlast
  obtain ⟨members', entries', rfl, hentries', rfl⟩ := docValue_object hdocValue'
  have hiv := stringHeader_ok hiv
  have htag := stringHeader_ok htag
  rw [decodeBase64_ok hiv'] at hiv
  rw [decodeBase64_ok htag'] at htag
  have hheaders := @headers_eq ⟨payload, iv, tag, compressed⟩ encoded _ (sorted_collect entries')
    (fun field hfield => (hkeys field hfield).1) hiv htag (compressedHeader_ok hcompressed) hencoded
  refine ⟨by simpa using failIf_eq_ok hivLength, by simpa using failIf_eq_ok htagLength, ⟨encoded, ?_⟩,
    members, members', hdoc, hlast, ?_, ?_⟩
  · rw [hvalue, hobject, hheaders]
    rfl
  · refine @literalKeysDistinct serialized ['{'] ['}'] members (by rw [← hprint]; rfl) entries hentries
      fun field hfield => ?_
    rw [hobject] at hfield
    rcases List.mem_cons.mp hfield with rfl | hfield
    · exact requireOneKey_ok hh
    · obtain rfl := List.mem_singleton.mp hfield
      exact requireOneKey_ok hp
  · obtain ⟨before, after, hmember⟩ := print_lastMember hlast
    refine @literalKeysDistinct serialized ('{' :: (before ++ ['{'])) ('}' :: (after ++ ['}'])) members' ?_
      entries' hentries' fun field hfield => (hkeys field hfield).2
    rw [← hprint, Doc.print, hmember, Doc.print]
    simp

end Rustodon.Crypto
