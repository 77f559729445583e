import Rustodon.Crypto.EnvelopeFields

/-! @src crypto.rs | name:Encrypted strings are decrypted | scheme:json-text | family:crypto

    The text of a ciphertext consists of pieces between quotes. Those that come from Base64 have a
    length that no key has, so that each key is found once, and every string where it is written. -/

namespace Rustodon.Crypto
open Schemes.Checked Schemes.Json Schemes.JsonText Schemes.JsonMaps Schemes.Matches
open Schemes.Utf8 (Text)
open Schemes.Bytes (Bytes utf8 fromUtf8)

/-! ### Base64 -/

theorem digit_printable {c : Char} (h : Schemes.Base64.isDigit c = true) :
    c ≠ '"' ∧ c ≠ '\\' ∧ 33 ≤ c.toNat := by
  refine ⟨?_, ?_, ?_⟩
  · rintro rfl
    exact absurd h (by decide)
  · rintro rfl
    exact absurd h (by decide)
  · by_contra hlow
    rw [Schemes.Base64.isDigit, Bool.or_eq_true, beq_iff_eq] at h
    rcases h with h | rfl
    · rw [Schemes.Base64.decodeDigit, if_neg (by omega), if_neg (by omega), if_neg (by omega)] at h
      split_ifs at h with hplus hslash
      · subst hplus
        exact hlow (by decide)
      · subst hslash
        exact hlow (by decide)
      · cases h
    · exact hlow (by decide)

theorem plain_encode (bytes : Bytes) : Plain (Schemes.Base64.encode bytes) := by
  intro c hc
  obtain ⟨hquote, hescape, hlow⟩ := digit_printable (Schemes.Base64.isDigit_of_mem_encode bytes hc)
  exact ⟨hquote, hescape, by omega⟩

theorem length_encode : ∀ bytes : Bytes, (Schemes.Base64.encode bytes).length % 4 = 0
  | [] => rfl
  | [a] => by simp [Schemes.Base64.encode]
  | [a, b] => by simp [Schemes.Base64.encode]
  | a :: b :: c :: rest => by
    have ih := length_encode rest
    simp only [Schemes.Base64.encode, List.length_cons]
    omega

/-- No key is the text of bytes. -/
theorem encode_ne {bytes : Bytes} {word : Text} (h : word.length % 4 ≠ 0) :
    Schemes.Base64.encode bytes ≠ word := by
  rintro rfl
  exact h (length_encode bytes)

theorem decodeBase64_encode (bytes : Bytes) : decodeBase64 (encodeBase64 bytes) = .ok bytes := by
  rw [decodeBase64, encodeBase64, String.toList_ofList, Schemes.Base64.decode_encode, okOr_some_bind,
    encodeBase64, decide_eq_false (by simp), failIf_false, ok_bind]

/-! ### The text of a ciphertext -/

section Pieces

variable (payload iv tag : Bytes)

/-- What stands between the quotes. -/
def pieces : List Text :=
  [['{'], ['h'], [':', '{'], ['a', 't'], [':'], Schemes.Base64.encode tag, [','], ['e'], [':'],
    Schemes.Base64.encode utf8Name, [','], ['i', 'v'], [':'], Schemes.Base64.encode iv, ['}', ','], ['p'],
    [':'], Schemes.Base64.encode payload, ['}']]

def encryptedDoc : Doc :=
  .object [(['h'], .object [(['a', 't'], .string (Schemes.Base64.encode tag)),
    (['e'], .string (Schemes.Base64.encode utf8Name)), (['i', 'v'], .string (Schemes.Base64.encode iv))]),
    (['p'], .string (Schemes.Base64.encode payload))]

/-- The maps of the object in their order. -/
theorem encryptedObject_eq :
    encryptedObject payload iv tag = envelopeObject ⟨payload, iv, tag, false⟩ true := by
  have hlt : ("at" : String) < "iv" ∧ ("at" : String) < "e" ∧ ¬ ("e" : String) < "at" ∧
      ("e" : String) < "iv" ∧ ("h" : String) < "p" ∧ ¬ ("e" : String) = "at" := by decide
  rw [encryptedObject, envelopeObject, envelopeHeaders]
  simp only [collect, insertKey, List.foldl_cons, List.foldl_nil, hlt, if_true, if_false]
  rfl

theorem valueDoc_encryptedObject :
    valueDoc (encryptedObject payload iv tag) = encryptedDoc payload iv tag := by
  have hkeys : escape ['h'] = ['h'] ∧ escape ['p'] = ['p'] ∧ escape ['a', 't'] = ['a', 't'] ∧
      escape ['e'] = ['e'] ∧ escape ['i', 'v'] = ['i', 'v'] := by decide
  rw [encryptedObject_eq, envelopeObject, envelopeHeaders]
  simp [valueDoc, fieldDocs, encodeBase64, hkeys, escape_plain (plain_encode _), encryptedDoc]

theorem print_encryptedDoc : (encryptedDoc payload iv tag).print = join '"' (pieces payload iv tag) := by
  simp [encryptedDoc, pieces, Doc.print, printMembers, join]

theorem docValue_encryptedDoc :
    docValue (encryptedDoc payload iv tag) = some (envelopeObject ⟨payload, iv, tag, false⟩ true) := by
  have hkeys : unescape ['h'] = some ['h'] ∧ unescape ['p'] = some ['p'] ∧
      unescape ['a', 't'] = some ['a', 't'] ∧ unescape ['e'] = some ['e'] ∧
      unescape ['i', 'v'] = some ['i', 'v'] := by decide
  have hnames : String.ofList ['h'] = "h" ∧ String.ofList ['p'] = "p" ∧ String.ofList ['a', 't'] = "at" ∧
      String.ofList ['e'] = "e" ∧ String.ofList ['i', 'v'] = "iv" := by decide
  have hvalue (bytes : Bytes) : unescape (Schemes.Base64.encode bytes) =
      some (Schemes.Base64.encode bytes) := unescape_literal (plain_encode bytes).literal
  have htoken : ("h" : String) ≠ numberToken ∧ ("at" : String) ≠ numberToken := by decide
  have hlt : ¬ ("e" : String) < "at" ∧ ¬ ("iv" : String) < "at" ∧ ¬ ("iv" : String) < "e" ∧
      ¬ ("p" : String) < "h" ∧ ¬ ("e" : String) = "at" ∧ ¬ ("iv" : String) = "at" ∧
      ¬ ("iv" : String) = "e" ∧ ¬ ("p" : String) = "h" := by decide
  simp only [encryptedDoc, docValue, memberValues, hkeys, hvalue, hnames, Option.bind_eq_bind,
    Option.bind_some, Option.map_some, objectValue, htoken, if_false, collect, insertKey,
    List.foldl_cons, List.foldl_nil, hlt]
  rfl

theorem encrypted_valid : (encryptedDoc payload iv tag).Valid 128 := by
  have hkeys : Plain ['h'] ∧ Plain ['p'] ∧ Plain ['a', 't'] ∧ Plain ['e'] ∧ Plain ['i', 'v'] := by
    simp [Plain]
  have hraw {text : Text} (h : Plain text) : IsRaw text := parseString_plain h
  obtain ⟨hh, hp, hat, he, hiv⟩ := hkeys
  have hvalue (bytes : Bytes) : IsRaw (Schemes.Base64.encode bytes) := hraw (plain_encode bytes)
  exact ⟨by decide, hraw hh, ⟨by decide, hraw hat, hvalue tag, hraw he, hvalue utf8Name, hraw hiv,
    hvalue iv, trivial⟩, hraw hp, hvalue payload, trivial⟩

/-- The text of a ciphertext. -/
def encryptedText : Text := jsonText (encryptedObject payload iv tag)

theorem encryptedText_eq : encryptedText payload iv tag = join '"' (pieces payload iv tag) := by
  rw [encryptedText, jsonText, valueDoc_encryptedObject, print_encryptedDoc]

theorem fromStr_encryptedText : fromStr (encryptedText payload iv tag) =
    some (envelopeObject ⟨payload, iv, tag, false⟩ true) := by
  rw [encryptedText, jsonText, valueDoc_encryptedObject, fromStr,
    document_print (encrypted_valid payload iv tag)]
  exact docValue_encryptedDoc payload iv tag

/-- Pieces are printable, and have no quotes in them. -/
theorem pieces_printable : ∀ piece ∈ pieces payload iv tag, ∀ c ∈ piece, c ≠ '"' ∧ 33 ≤ c.toNat := by
  have hvalue (bytes : Bytes) : ∀ c ∈ Schemes.Base64.encode bytes, c ≠ '"' ∧ 33 ≤ c.toNat := by
    intro c hc
    obtain ⟨hquote, -, hlow⟩ := digit_printable (Schemes.Base64.isDigit_of_mem_encode bytes hc)
    exact ⟨hquote, hlow⟩
  intro piece hpiece
  simp only [pieces, List.mem_cons, List.not_mem_nil, or_false] at hpiece
  rcases hpiece with rfl | rfl | rfl | rfl | rfl | rfl | rfl | rfl | rfl | rfl | rfl | rfl | rfl | rfl |
    rfl | rfl | rfl | rfl | rfl
  all_goals first | exact hvalue _ | decide

theorem mem_join {c : Char} : ∀ {pieces : List Text}, c ∈ join '"' pieces →
    c = '"' ∨ ∃ piece ∈ pieces, c ∈ piece
  | [], h => by cases h
  | [piece], h => .inr ⟨piece, List.mem_cons_self, h⟩
  | piece :: next :: pieces, h => by
    rw [join_cons] at h
    rcases List.mem_append.mp h with h | h
    · exact .inr ⟨piece, List.mem_cons_self, h⟩
    · rcases List.mem_cons.mp h with rfl | h
      · exact .inl rfl
      · rcases mem_join h with rfl | ⟨piece', hmem, hc⟩
        · exact .inl rfl
        · exact .inr ⟨piece', List.mem_cons_of_mem _ hmem, hc⟩

theorem encryptedText_compact :
    (utf8 (encryptedText payload iv tag)).any isAsciiWhitespace = false := by
  rw [List.any_eq_false]
  intro byte hbyte hspace
  simp only [isAsciiWhitespace, Bool.or_eq_true, beq_iff_eq] at hspace
  have hlow : byte.toNat < 33 := by
    rcases hspace with (((rfl | rfl) | rfl) | rfl) | rfl <;> decide
  obtain ⟨c, hc, hcode⟩ := Schemes.Bytes.mem_utf8 hbyte (by omega)
  rw [encryptedText_eq] at hc
  rcases mem_join hc with rfl | ⟨piece, hpiece, hc⟩
  · have : '"'.toNat = 34 := rfl
    omega
  · have := (pieces_printable payload iv tag piece hpiece c hc).2
    omega

/-- Each key stands once between quotes. -/
theorem requireOneKey_encryptedText {key : String}
    (h : key = "p" ∨ key = "h" ∨ key = "at" ∨ key = "e" ∨ key = "iv") :
    requireOneKey (encryptedText payload iv tag) key = .ok () := by
  have hcount : countMatches (quoted key.toList) (encryptedText payload iv tag) = 1 := by
    have hquote : '"' ∉ key.toList := by
      rcases h with rfl | rfl | rfl | rfl | rfl <;> decide
    rw [encryptedText_eq, pieces, quoted, countMatches_join hquote _ _ fun piece hpiece hmem =>
      (pieces_printable payload iv tag piece hpiece _ hmem).1 rfl]
    rcases h with rfl | rfl | rfl | rfl | rfl <;> simp [countPieces, encode_ne]
  rw [requireOneKey, if_pos hcount]

theorem hasLiteral_encryptedText {bytes : Bytes}
    (h : bytes = payload ∨ bytes = iv ∨ bytes = tag ∨ bytes = utf8Name) :
    hasLiteralJsonString (encryptedText payload iv tag) (encodeBase64 bytes) = true := by
  rw [hasLiteralJsonString, encryptedText_eq, encodeBase64, String.toList_ofList, quoted]
  have hsplit : ∃ before first last after, pieces payload iv tag =
      before ++ first :: Schemes.Base64.encode bytes :: last :: after := by
    rcases h with rfl | rfl | rfl | rfl
    · exact ⟨[_, _, _, _, _, _, _, _, _, _, _, _, _, _, _, _], [':'], ['}'], [], rfl⟩
    · exact ⟨[_, _, _, _, _, _, _, _, _, _, _, _], [':'], ['}', ','], _, rfl⟩
    · exact ⟨[_, _, _, _], [':'], [','], _, rfl⟩
    · exact ⟨[_, _, _, _, _, _, _, _], [':'], [','], _, rfl⟩
  obtain ⟨before, first, last, after, hpieces⟩ := hsplit
  rw [hpieces, join_split]
  exact contains_append _ _ _

theorem stringHeader_encryptedText {headers : Fields} {key : String} {bytes : Bytes}
    (hget : Schemes.Json.get headers key = some (.string (encodeBase64 bytes)))
    (h : bytes = payload ∨ bytes = iv ∨ bytes = tag ∨ bytes = utf8Name) :
    stringHeader headers (encryptedText payload iv tag) key = .ok (encodeBase64 bytes) := by
  have hliteral := hasLiteral_encryptedText payload iv tag h
  rw [stringHeader, hget, Option.bind_some, Value.asStr, Option.filter_some, if_pos hliteral]
  rfl

/-- What is encrypted has the envelope of its ciphertext. -/
theorem parseEnvelope_encryptedText (hiv : iv.length = gcmIvLength) (htag : tag.length = gcmTagLength) :
    parseEnvelope (encryptedText payload iv tag) = .ok ⟨payload, iv, tag, false⟩ := by
  have hone {key : String} := @requireOneKey_encryptedText payload iv tag key
  have hp : Schemes.Json.get [("h", Value.object (envelopeHeaders ⟨payload, iv, tag, false⟩ true)),
      ("p", .string (encodeBase64 payload))] "p" = some (.string (encodeBase64 payload)) := rfl
  have hh : Schemes.Json.get [("h", Value.object (envelopeHeaders ⟨payload, iv, tag, false⟩ true)),
      ("p", .string (encodeBase64 payload))] "h" =
        some (.object (envelopeHeaders ⟨payload, iv, tag, false⟩ true)) := rfl
  have hheaders : requireHeaders (encryptedText payload iv tag)
      (envelopeHeaders ⟨payload, iv, tag, false⟩ true) = .ok () := by
    simp only [envelopeHeaders, if_true, Bool.false_eq_true, if_false, List.nil_append, List.cons_append,
      requireHeaders, hone (.inr (.inr (.inl rfl))), hone (.inr (.inr (.inr (.inl rfl)))),
      hone (.inr (.inr (.inr (.inr rfl))))]
    rfl
  have hencoding : requireEncoding (envelopeHeaders ⟨payload, iv, tag, false⟩ true)
      (encryptedText payload iv tag) = .ok () := by
    have hliteral := hasLiteral_encryptedText payload iv tag (.inr (.inr (.inr rfl)))
    have he : Schemes.Json.get (envelopeHeaders ⟨payload, iv, tag, false⟩ true) "e" =
        some (.string (encodeBase64 utf8Name)) := rfl
    rw [requireEncoding, he]
    simp only [Value.asStr, Option.filter_some, hliteral, if_true, okOr_some_bind,
      decodeBase64_encode, ok_bind]
    rfl
  have hcompressed : compressedHeader (envelopeHeaders ⟨payload, iv, tag, false⟩ true) = .ok false := rfl
  have hpayload' := stringHeader_encryptedText payload iv tag hp (.inl rfl)
  have hivText := @stringHeader_encryptedText payload iv tag (envelopeHeaders ⟨payload, iv, tag, false⟩ true)
    "iv" iv rfl (.inr (.inl rfl))
  have htagText := @stringHeader_encryptedText payload iv tag
    (envelopeHeaders ⟨payload, iv, tag, false⟩ true) "at" tag rfl (.inr (.inr (.inl rfl)))
  rw [parseEnvelope, encryptedText_compact, failIf_false, ok_bind, fromStr_encryptedText, okOr_some_bind,
    envelopeObject]
  simp only [Value.asObject, Option.filter_some, List.length_cons, List.length_nil, Nat.zero_add,
    Nat.reduceAdd, beq_self_eq_true, if_true, okOr_some_bind, hone (.inl rfl), hone (.inr (.inl rfl)),
    ok_bind, hpayload', hh, Option.bind_some]
  have hlength : (envelopeHeaders ⟨payload, iv, tag, false⟩ true).length = 3 := rfl
  simp only [hlength, Nat.reduceLeDiff, and_self, decide_true, if_true, okOr_some_bind, hheaders, ok_bind,
    hivText, htagText, hcompressed, hencoding, decodeBase64_encode, hiv, htag, ne_eq, not_true_eq_false,
    decide_false, failIf_false]

end Pieces

/-- The text of the source is decoded. -/
theorem decryptString_encryptString {prims : Primitives} (hlawful : prims.Lawful)
    {config : ActiveRecordEncryptionConfig} {iv : Iv} {plaintext text : Text} (maxPlaintextBytes : ℕ)
    (h : encryptString prims config iv plaintext = .ok text) :
    decryptString prims config text maxPlaintextBytes =
      if (utf8 plaintext).length ≤ maxPlaintextBytes then .ok plaintext
      else .error .plaintextTooLarge := by
  obtain ⟨⟨payload, tag⟩, hsealed, h⟩ := bind_eq_ok h
  obtain rfl := Except.ok.inj h
  have hsealed := okOr_eq_ok hsealed
  have hparse := parseEnvelope_encryptedText payload iv.bytes tag iv.length_eq (hlawful.tag_length hsealed)
  have hopened := hlawful.decrypts iv.length_eq hsealed
  rw [decryptString, show jsonText (encryptedObject payload iv.bytes tag) =
    encryptedText payload iv.bytes tag from rfl, hparse, ok_bind]
  simp only [authenticate, hopened, Option.some_or, okOr_some_bind, Bool.false_eq_true, if_false]
  by_cases hlength : (utf8 plaintext).length ≤ maxPlaintextBytes
  · rw [if_pos hlength, decide_eq_false (by omega), failIf_false, ok_bind, secretFromUtf8,
      Schemes.Bytes.fromUtf8_utf8]
    rfl
  · rw [if_neg hlength, decide_eq_true (by omega)]
    rfl

/-- CORRECT (encrypted strings): what is encrypted is decrypted, within the limit; and a text that is
    accepted is the object of its envelope, in Base64 of one spelling, with or without the name of the
    encoding, in which no key is written twice. -/
theorem encrypted_strings (prims : Primitives) (hlawful : prims.Lawful) :
    (∀ config iv plaintext text maxPlaintextBytes,
      encryptString prims config iv plaintext = .ok text →
        decryptString prims config text maxPlaintextBytes =
          if (utf8 plaintext).length ≤ maxPlaintextBytes then .ok plaintext
          else .error .plaintextTooLarge) ∧
    ∀ serialized envelope, parseEnvelope serialized = .ok envelope → Accepted serialized envelope :=
  ⟨fun _ _ _ _ maxPlaintextBytes h => decryptString_encryptString hlawful maxPlaintextBytes h,
    fun _ _ h => accepted_of_parseEnvelope h⟩

def sampleKey : Bytes :=
  [239, 67, 154, 213, 249, 179, 234, 114, 212, 97, 0, 9, 234, 153, 162, 18, 40, 246, 167, 253, 86, 121,
    217, 140, 107, 8, 250, 18, 249, 161, 99, 3]

def sampleTag : Bytes := [186, 16, 90, 188, 151, 182, 214, 29, 224, 174, 89, 160, 94, 177, 115, 169]

/-- The libraries at one encryption: of "key", with an IV of zeros. -/
def samplePrimitives : Primitives where
  deriveKey digest _ _ := if digest = .sha256 then sampleKey else []
  encryptDetached key iv plaintext :=
    if key = sampleKey ∧ iv = List.replicate 12 0 ∧ plaintext = [107, 101, 121] then
      some ([250, 241, 89], sampleTag) else none
  decryptDetached key iv ciphertext tag :=
    if key = sampleKey ∧ iv = List.replicate 12 0 ∧ ciphertext = [250, 241, 89] ∧ tag = sampleTag then
      some [107, 101, 121] else none
  inflate _ _ := none

theorem samplePrimitives_lawful : samplePrimitives.Lawful where
  decrypts := by
    intro key iv plaintext ciphertext tag _ h
    simp only [samplePrimitives] at h ⊢
    split_ifs at h with hcall
    obtain ⟨hkey, hiv, rfl⟩ := hcall
    simp only [Option.some.injEq, Prod.mk.injEq] at h
    rw [if_pos ⟨hkey, hiv, h.1.symm, h.2.symm⟩]
  tag_length := by
    intro key iv plaintext ciphertext tag h
    simp only [samplePrimitives] at h
    split_ifs at h
    simp only [Option.some.injEq, Prod.mk.injEq] at h
    rw [← h.2]
    rfl

theorem encrypted_strings_sample :
    ∃ text, encryptString samplePrimitives ⟨List.replicate 32 '3', List.replicate 32 '1',
        List.replicate 32 '2', nofun, nofun, nofun⟩ ⟨List.replicate 12 0, rfl⟩ "key".toList = .ok text ∧
      decryptString samplePrimitives ⟨List.replicate 32 '3', List.replicate 32 '1',
        List.replicate 32 '2', nofun, nofun, nofun⟩ text 3 = .ok "key".toList ∧
      decryptString samplePrimitives ⟨List.replicate 32 '3', List.replicate 32 '1',
        List.replicate 32 '2', nofun, nofun, nofun⟩ text 2 = .error .plaintextTooLarge := by
  have hstrings := (encrypted_strings samplePrimitives samplePrimitives_lawful).1
    ⟨List.replicate 32 '3', List.replicate 32 '1', List.replicate 32 '2', nofun, nofun, nofun⟩
    ⟨List.replicate 12 0, rfl⟩ "key".toList
  refine ⟨encryptedText [250, 241, 89] (List.replicate 12 0) sampleTag, by decide, ?_, ?_⟩
  · rw [hstrings _ 3 (by decide), if_pos (by decide)]
  · rw [hstrings _ 2 (by decide), if_neg (by decide)]

/-- An object with these members in front of those of an envelope of nothing. -/
def ambiguousDoc (members headers : List (Text × Doc)) : Doc :=
  .object (members ++ [(['p'], .string []), (['h'], .object ([(['i', 'v'], .string (List.replicate 16 'A')),
    (['a', 't'], .string (List.replicate 22 'A' ++ ['=', '=']))] ++ headers))])

theorem ambiguousDoc_valid :
    (ambiguousDoc [(['\\', 'u', '0', '0', '7', '0'], .null)] []).Valid 128 := by
  have hescaped : IsRaw ['\\', 'u', '0', '0', '7', '0'] := fun _ => rfl
  have hkeys : Plain ['p'] ∧ Plain ['h'] ∧ Plain ['i', 'v'] ∧ Plain ['a', 't'] ∧ Plain [] ∧
      Plain (List.replicate 16 'A') ∧ Plain (List.replicate 22 'A' ++ ['=', '=']) := by
    simp [Plain]
  have hraw {text : Text} (h : Plain text) : IsRaw text := parseString_plain h
  obtain ⟨hp, hh, hiv, hat, hnil, hivText, htagText⟩ := hkeys
  exact ⟨by decide, hescaped, trivial, hraw hp, hraw hnil, hraw hh,
    ⟨by decide, hraw hiv, hraw hivText, hraw hat, hraw htagText, trivial⟩, trivial⟩

/-- A key that comes again with an escape is not seen, and the name of the encoding is not told by what
    is decoded. -/
theorem envelope_ambiguous :
    (∃ serialized envelope members, parseEnvelope serialized = .ok envelope ∧
      document serialized = some (.object members) ∧
      ¬ (members.map fun member => unescape member.1).Nodup) ∧
    ∃ serialized serialized' envelope, parseEnvelope serialized = .ok envelope ∧
      parseEnvelope serialized' = .ok envelope ∧ fromStr serialized ≠ fromStr serialized' := by
  refine ⟨⟨(ambiguousDoc [(['\\', 'u', '0', '0', '7', '0'], .null)] []).print,
    ⟨[], List.replicate 12 0, List.replicate 16 0, false⟩, _, by decide,
    document_print ambiguousDoc_valid, by decide⟩,
    (ambiguousDoc [] []).print, (ambiguousDoc [] [(['e'], .string "VVRGLTg=".toList)]).print,
    ⟨[], List.replicate 12 0, List.replicate 16 0, false⟩, ?_⟩
  decide +kernel

end Rustodon.Crypto
