import Rustodon.Signatures.Soundness

/-! @src mastodon/signatures.rs | name:Signing and verifying | scheme:utf8-text | family:signatures

    The `Signature` header that the signer writes by hand is read back by the tokenizer as the
    parameters it was written from, so that a signed request is accepted under the matching key. -/

namespace Rustodon.Signatures
open Schemes.Checked Schemes.Utf8

/-- The parameters as the signer writes them, each value in quotes. -/
def render : Parameters → Text
  | [] => []
  | [(key, value)] => key ++ '=' :: '"' :: (value ++ ['"'])
  | (key, value) :: rest => key ++ '=' :: '"' :: (value ++ '"' :: ',' :: render rest)

/-- A character that stands for itself between quotes. -/
def isPlain (c : Char) : Bool := c != '"' && c != '\\' && !isAsciiControl c

/-- Parameters that can be written: their keys are tokens, their values plain. -/
def Writable (parameter : Text × Text) : Prop :=
  (parameter.1 ≠ [] ∧ ∀ c ∈ parameter.1, isTokenByte c = true) ∧
    ∀ c ∈ parameter.2, isPlain c = true

/-! ### The loop has turns enough -/

theorem length_skipSpaces_le (text : Text) : (skipSpaces text).length ≤ text.length :=
  (List.dropWhile_suffix _).length_le

theorem parseToken_length {text token rest : Text} (h : parseToken text = .ok (token, rest)) :
    rest.length ≤ text.length := by
  rw [parseToken] at h
  split_ifs at h
  obtain ⟨-, rfl⟩ := Prod.mk.inj (Except.ok.inj h)
  exact (List.dropWhile_suffix _).length_le

theorem parseQuotedValue_length : ∀ {text value rest : Text},
    parseQuotedValue text = .ok (value, rest) → rest.length ≤ text.length := by
  intro text
  fun_induction parseQuotedValue text with
  | case1 => intro _ _ h; cases h
  | case2 rest =>
    intro _ _ h
    obtain ⟨-, rfl⟩ := Prod.mk.inj (Except.ok.inj h)
    exact Nat.le_succ _
  | case3 => intro _ _ h; cases h
  | case4 c rest ih =>
    intro _ _ h
    obtain ⟨⟨value, rest'⟩, hrest, h⟩ := bind_eq_ok h
    obtain ⟨-, rfl⟩ := Prod.mk.inj (Except.ok.inj h)
    exact (ih hrest).trans (by simp only [List.length_cons]; omega)
  | case5 => intro _ _ h; cases h
  | case6 c rest _ _ _ _ ih =>
    intro _ _ h
    obtain ⟨⟨value, rest'⟩, hrest, h⟩ := bind_eq_ok h
    obtain ⟨-, rfl⟩ := Prod.mk.inj (Except.ok.inj h)
    exact (ih hrest).trans (Nat.le_succ _)

theorem parseValue_length {text value rest : Text} (h : parseValue text = .ok (value, rest)) :
    rest.length ≤ text.length := by
  unfold parseValue at h
  split at h
  · exact (parseQuotedValue_length h).trans (Nat.le_succ _)
  · exact parseToken_length h

theorem parseParameter_length {text rest : Text} {parameter : Text × Text}
    (h : parseParameter text = .ok (parameter, rest)) : rest.length ≤ text.length := by
  obtain ⟨⟨key, afterKey⟩, hkey, h⟩ := bind_eq_ok h
  have hspaces := length_skipSpaces_le text
  have hkey := parseToken_length hkey
  have hafter := length_skipSpaces_le afterKey
  simp only at h
  split at h
  · next afterEquals heq =>
    obtain ⟨⟨value, afterValue⟩, hvalue, h⟩ := bind_eq_ok h
    obtain ⟨-, rfl⟩ := Prod.mk.inj (Except.ok.inj h)
    have hvalue := parseValue_length hvalue
    have hbefore := length_skipSpaces_le afterEquals
    have hlast := length_skipSpaces_le afterValue
    simp only [heq, List.length_cons] at hafter ⊢
    omega
  · cases h

/-- Every turn takes a comma at least, so the length of the text is turns enough: the model's loop
    ends as the source's does. -/
theorem parseLoop_turns : ∀ (n m : ℕ) (text : Text) (parameters : Parameters), text.length < n →
    text.length < m → parseLoop n text parameters = parseLoop m text parameters
  | 0, _, _, _, h, _ => absurd h (Nat.not_lt_zero _)
  | _ + 1, 0, _, _, _, h => absurd h (Nat.not_lt_zero _)
  | n + 1, m + 1, text, parameters, hn, hm => by
    rw [parseLoop, parseLoop]
    cases hone : parseParameter text with
    | error e => rfl
    | ok one =>
      obtain ⟨⟨key, value⟩, rest⟩ := one
      have hlength := parseParameter_length hone
      simp only [ok_bind]
      split_ifs with hfresh
      · rfl
      · cases rest with
        | nil => rfl
        | cons c rest =>
          rw [List.length_cons] at hlength
          by_cases hcomma : c = ','
          · subst hcomma
            exact parseLoop_turns n m rest _ (by omega) (by omega)
          · simp [hcomma]

/-! ### Reading what was written -/

theorem parseQuotedValue_plain : ∀ (value rest : Text), (∀ c ∈ value, isPlain c = true) →
    parseQuotedValue (value ++ '"' :: rest) = .ok (value, rest)
  | [], rest, _ => rfl
  | c :: value, rest, h => by
    have hc := h c (List.mem_cons_self ..)
    have ih := parseQuotedValue_plain value rest fun a ha => h a (List.mem_cons_of_mem _ ha)
    simp only [isPlain, Bool.and_eq_true, bne_iff_ne, ne_eq, Bool.not_eq_true'] at hc
    obtain ⟨⟨hquote, hescape⟩, hcontrol⟩ := hc
    rw [List.cons_append, parseQuotedValue]
    · rw [hcontrol, ih]
      rfl
    · exact hquote
    · intro heq
      exact absurd heq hescape
    · intro _ _ heq
      exact absurd heq hescape

theorem parseToken_append {key rest : Text} (hne : key ≠ [])
    (htoken : ∀ c ∈ key, isTokenByte c = true) (hrest : ∀ c ∈ rest.head?, isTokenByte c = false) :
    parseToken (key ++ rest) = .ok (key, rest) := by
  have htake : (key ++ rest).takeWhile isTokenByte = key := by
    rw [List.takeWhile_append_of_pos htoken]
    cases rest with
    | nil => simp
    | cons c rest => simp [hrest c rfl]
  have hdrop : (key ++ rest).dropWhile isTokenByte = rest := by
    rw [List.dropWhile_append_of_pos htoken]
    cases rest with
    | nil => rfl
    | cons c rest => simp [hrest c rfl]
  rw [parseToken, htake, hdrop, if_neg (by simpa using hne)]

theorem skipSpaces_cons {c : Char} (rest : Text) (h : isAsciiWhitespace c = false) :
    skipSpaces (c :: rest) = c :: rest := by
  rw [skipSpaces, List.dropWhile_cons, h]
  rfl

/-- A token does not start with white space. -/
theorem not_whitespace_of_token {c : Char} (h : isTokenByte c = true) :
    isAsciiWhitespace c = false := by
  by_contra hspace
  simp only [isAsciiWhitespace, Bool.not_eq_false, Bool.or_eq_true, beq_iff_eq] at hspace
  rcases hspace with (((rfl | rfl) | rfl) | h12) | rfl
  · exact absurd h (by decide)
  · exact absurd h (by decide)
  · exact absurd h (by decide)
  · obtain rfl : c = Char.ofNat 12 := by rw [← h12, Char.ofNat_toNat]
    exact absurd h (by decide)
  · exact absurd h (by decide)

theorem parseParameter_render {key value : Text} (rest : Text) (h : Writable (key, value)) :
    parseParameter (key ++ '=' :: '"' :: (value ++ '"' :: rest)) =
      .ok ((key, value), skipSpaces rest) := by
  obtain ⟨⟨hne, htoken⟩, hplain⟩ := h
  obtain ⟨c, key', rfl⟩ := List.exists_cons_of_ne_nil hne
  have hstart : skipSpaces (c :: key' ++ '=' :: '"' :: (value ++ '"' :: rest)) =
      c :: key' ++ '=' :: '"' :: (value ++ '"' :: rest) :=
    skipSpaces_cons _ (not_whitespace_of_token (htoken c (List.mem_cons_self ..)))
  have hkey : parseToken (c :: key' ++ '=' :: '"' :: (value ++ '"' :: rest)) =
      .ok (c :: key', '=' :: '"' :: (value ++ '"' :: rest)) :=
    parseToken_append hne htoken fun _ hc => by obtain rfl := Option.some.inj hc; decide
  rw [parseParameter, hstart, hkey]
  simp only [ok_bind]
  rw [skipSpaces_cons _ (by decide)]
  simp only
  rw [skipSpaces_cons _ (by decide), parseValue, parseQuotedValue_plain value rest hplain]
  rfl

/-- CORRECT (tokenizer): parameters with distinct keys are read back as they were written. -/
theorem parseLoop_render : ∀ (parameters read : Parameters) (fuel : ℕ), parameters ≠ [] →
    parameters.length ≤ fuel → (∀ parameter ∈ parameters, Writable parameter) →
    ((read ++ parameters).map Prod.fst).Nodup →
    parseLoop fuel (render parameters) read = .ok (read ++ parameters)
  | [], _, _, h, _, _, _ => absurd rfl h
  | _ :: _, _, 0, _, hfuel, _, _ => absurd hfuel (by simp)
  | [(key, value)], read, fuel + 1, _, _, hwritable, hnodup => by
    have hone := parseParameter_render [] (hwritable (key, value) (by simp))
    have hfresh : read.lookup key = none := by
      rw [List.lookup_eq_none_iff]
      intro parameter hmem
      rw [List.map_append, List.nodup_append] at hnodup
      have := hnodup.2.2 parameter.1 (List.mem_map_of_mem hmem) key (by simp)
      simpa using this.symm
    rw [parseLoop, render, hone]
    simp only [ok_bind, hfresh]
    rfl
  | (key, value) :: parameter :: parameters, read, fuel + 1, _, hfuel, hwritable, hnodup => by
    have hone := parseParameter_render (',' :: render (parameter :: parameters))
      (hwritable (key, value) (by simp))
    have hfresh : read.lookup key = none := by
      rw [List.lookup_eq_none_iff]
      intro parameter hmem
      rw [List.map_append, List.nodup_append] at hnodup
      have := hnodup.2.2 parameter.1 (List.mem_map_of_mem hmem) key (by simp)
      simpa using this.symm
    have htext : render ((key, value) :: parameter :: parameters) =
        key ++ '=' :: '"' :: (value ++ '"' :: ',' :: render (parameter :: parameters)) := rfl
    have ih := parseLoop_render (parameter :: parameters) (read ++ [(key, value)]) fuel (by simp)
      (by simpa using hfuel) (fun p hp => hwritable p (List.mem_cons_of_mem _ hp))
      (by simpa [List.append_assoc] using hnodup)
    rw [parseLoop, htext, hone]
    simp only [ok_bind, hfresh]
    rw [skipSpaces_cons _ (by decide)]
    simpa [List.append_assoc] using ih

theorem length_render_le : ∀ parameters : Parameters,
    parameters.length ≤ (render parameters).length
  | [] => Nat.zero_le _
  | [(key, value)] => by
    simp only [render, List.length_append, List.length_cons, List.length_nil]
    omega
  | (key, value) :: parameter :: parameters => by
    have ih := length_render_le (parameter :: parameters)
    simp only [render, List.length_append, List.length_cons] at ih ⊢
    omega

/-! ### The text of the header -/

/-- Visible ASCII. -/
def isVisible (c : Char) : Bool := 32 ≤ c.toNat && c.toNat < 127

/-- Visible text is sent and read back. -/
theorem toStr_asBytes {text : Text} (h : ∀ c ∈ text, isVisible c = true) :
    toStr (asBytes text) = some text := by
  have hbyte : ∀ c ∈ text, (UInt8.ofNat c.toNat).toNat = c.toNat := by
    intro c hc
    have hc := h c hc
    simp only [isVisible, Bool.and_eq_true, decide_eq_true_eq] at hc
    rw [UInt8.toNat_ofNat']
    omega
  have hall : ((asBytes text).all fun b =>
      (32 ≤ b.toNat && b.toNat < 127) || b.toNat == 9) = true := by
    rw [asBytes, List.all_map, List.all_eq_true]
    intro c hc
    have hvisible := h c hc
    rw [isVisible] at hvisible
    simp only [Function.comp_apply, hbyte c hc, hvisible, Bool.true_or]
  rw [toStr, if_pos hall, asBytes, List.map_map]
  refine congrArg some ((List.map_congr_left fun c hc => ?_).trans (List.map_id text))
  rw [Function.comp_apply, hbyte c hc, Char.ofNat_toNat]
  rfl

theorem isDigit_bounds {c : Char} (h : Schemes.Base64.isDigit c = true) :
    43 ≤ c.toNat ∧ c.toNat ≠ 92 ∧ c.toNat < 127 := by
  rw [Schemes.Base64.isDigit, Bool.or_eq_true, beq_iff_eq] at h
  rcases h with h | rfl
  · rw [Schemes.Base64.decodeDigit] at h
    split_ifs at h with h₁ h₂ h₃ h₄ h₅
    · omega
    · omega
    · omega
    · subst h₄; decide
    · subst h₅; decide
    · cases h
  · decide

theorem isVisible_of_isDigit {c : Char} (h : Schemes.Base64.isDigit c = true) :
    isVisible c = true := by
  obtain ⟨hlow, -, hhigh⟩ := isDigit_bounds h
  simp only [isVisible, Bool.and_eq_true, decide_eq_true_eq]
  omega

theorem isPlain_of_isDigit {c : Char} (h : Schemes.Base64.isDigit c = true) :
    isPlain c = true := by
  obtain ⟨hlow, hescape, hhigh⟩ := isDigit_bounds h
  have hquote : c ≠ '"' := by rintro rfl; exact absurd hlow (by decide)
  have hescape : c ≠ '\\' := by rintro rfl; exact hescape rfl
  have hcontrol : isAsciiControl c = false := by
    simp only [isAsciiControl, Bool.or_eq_false_iff, decide_eq_false_iff_not, beq_eq_false_iff_ne]
    omega
  simp [isPlain, hquote, hescape, hcontrol]

/-- A key id that is accepted is plain. -/
theorem isPlain_of_validateKeyId {keyId : Text} {u : Unit} (h : validateKeyId keyId = .ok u) :
    ∀ c ∈ keyId, isPlain c = true := by
  have h := failIf_eq_ok h
  rw [Bool.or_eq_false_iff, List.any_eq_false] at h
  intro c hc
  have hc := h.2 c hc
  simpa [isPlain, and_assoc] using hc

/-- The parameters that the signer writes. -/
def writtenParameters (keyId headers signature : Text) : Parameters :=
  [("keyId".toList, keyId), ("algorithm".toList, algorithm), ("headers".toList, headers),
    ("signature".toList, signature)]

theorem append_nine (a b c d e f g h i : Text) : a ++ b ++ c ++ d ++ e ++ f ++ g ++ h ++ i =
    a ++ (b ++ (c ++ (d ++ (e ++ (f ++ (g ++ (h ++ i))))))) := by
  simp only [List.append_assoc]

theorem signatureHeader_eq (keyId : Text) (signedHeaders : List Text) (signature : Bytes) :
    signatureHeader keyId signedHeaders signature = "keyId=\"".toList ++ (keyId ++
      ("\",algorithm=\"".toList ++ (algorithm ++ ("\",headers=\"".toList ++
        (join " ".toList signedHeaders ++ ("\",signature=\"".toList ++
          (Schemes.Base64.encode signature ++ "\"".toList))))))) :=
  append_nine ..

theorem signatureHeader_eq_render (keyId : Text) (signedHeaders : List Text) (signature : Bytes) :
    signatureHeader keyId signedHeaders signature = render (writtenParameters keyId
      (join " ".toList signedHeaders) (Schemes.Base64.encode signature)) := by
  rw [signatureHeader_eq]
  rfl

/-- The header is read back as the parameters it is written from. -/
theorem parseSignatureHeader_signatureHeader {keyId : Text} {signedHeaders : List Text}
    (signature : Bytes) (hkeyId : ∀ c ∈ keyId, isPlain c = true)
    (hheaders : ∀ c ∈ join " ".toList signedHeaders, isPlain c = true) :
    parseSignatureHeader (signatureHeader keyId signedHeaders signature) =
      .ok (writtenParameters keyId (join " ".toList signedHeaders)
        (Schemes.Base64.encode signature)) := by
  have hprefix : stripSignaturePrefix (signatureHeader keyId signedHeaders signature) =
      signatureHeader keyId signedHeaders signature := by
    rw [stripSignaturePrefix, if_neg]
    rw [signatureHeader_eq]
    exact Bool.false_ne_true
  have hnodup : (writtenParameters keyId (join " ".toList signedHeaders)
      (Schemes.Base64.encode signature)).map Prod.fst |>.Nodup :=
    (by decide : ["keyId".toList, "algorithm".toList, "headers".toList, "signature".toList].Nodup)
  rw [parseSignatureHeader, hprefix, signatureHeader_eq_render]
  refine parseLoop_render _ [] _ (by simp [writtenParameters])
    (Nat.le_succ_of_le (length_render_le _)) ?_ hnodup
  intro parameter hmem
  rw [writtenParameters, List.mem_cons, List.mem_cons, List.mem_cons, List.mem_singleton] at hmem
  have hkeys : ∀ key ∈ ["keyId".toList, "algorithm".toList, "headers".toList, "signature".toList],
      key ≠ [] ∧ ∀ c ∈ key, isTokenByte c = true := by decide
  rcases hmem with rfl | rfl | rfl | rfl
  · exact ⟨hkeys "keyId".toList (by decide), hkeyId⟩
  · exact ⟨hkeys "algorithm".toList (by decide), by decide⟩
  · exact ⟨hkeys "headers".toList (by decide), hheaders⟩
  · exact ⟨hkeys "signature".toList (by decide),
      fun c hc => isPlain_of_isDigit (Schemes.Base64.isDigit_of_mem_encode _ hc)⟩

theorem signatureHeader_visible {keyId : Text} {signedHeaders : List Text} (signature : Bytes)
    (hkeyId : ∀ c ∈ keyId, isVisible c = true)
    (hheaders : ∀ c ∈ join " ".toList signedHeaders, isVisible c = true) :
    ∀ c ∈ signatureHeader keyId signedHeaders signature, isVisible c = true := by
  have both {a b : Text} (ha : ∀ c ∈ a, isVisible c = true) (hb : ∀ c ∈ b, isVisible c = true) :
      ∀ c ∈ a ++ b, isVisible c = true := List.forall_mem_append.mpr ⟨ha, hb⟩
  rw [signatureHeader_eq]
  refine both (by decide) (both hkeyId (both (by decide) (both (by decide) (both (by decide)
    (both hheaders (both (by decide) (both ?_ (by decide))))))))
  exact fun c hc => isVisible_of_isDigit (Schemes.Base64.isDigit_of_mem_encode _ hc)

/-! ### The round trip -/

/-- A request with its signature in place. -/
def HttpSignatureRequest.withSignature (request : HttpSignatureRequest) (signature : Text) :
    HttpSignatureRequest :=
  { request with headers := request.headers.insert "signature".toList (asBytes signature) }

/-- A request that can be signed and is then verified at a given time: its host, date and digest
    are visible, and the time is within the window of the date. -/
structure Signable (env : Env) (request : HttpSignatureRequest) (signer : HttpSignatureSigner)
    (now : ℤ) : Prop where
  method : request.method = .get ∨ request.method = .post
  host : ∃ text, headerText request "host".toList = .ok text
  date : ∃ text created, headerText request "date".toList = .ok text ∧
    env.parseHttpDate text = some created ∧ created - clockSkewMargin ≤ now ∧
    now ≤ created + defaultExpirationWindow + clockSkewMargin
  digest : request.method = .post → ∃ text, headerText request "digest".toList = .ok text ∧
    receivedDigest text = some (Schemes.Base64.encode (env.sha256 request.body))
  keyId : validateKeyId signer.keyId = .ok () ∧ ∀ c ∈ signer.keyId, isVisible c = true
  input : request.headers.get "signature-input".toList = none

/-- The headers signed by default for a request. -/
structure Standard (request : HttpSignatureRequest) (signedHeaders : List Text) : Prop where
  default : defaultSignedHeaders request.method = .ok signedHeaders
  normal : normalizeSignedHeaders signedHeaders = .ok signedHeaders
  text : ∀ c ∈ join " ".toList signedHeaders, isPlain c = true ∧ isVisible c = true
  strong : verifySignatureStrength request signedHeaders = .ok ()
  known : ∀ header ∈ signedHeaders, header = "host".toList ∨ header = "date".toList ∨
    header = requestTarget ∨ header = "digest".toList ∧ request.method = .post

variable {env : Env} {request : HttpSignatureRequest} {signer : HttpSignatureSigner} {now : ℤ}
  {signedHeaders : List Text}

theorem exists_standard (h : request.method = .get ∨ request.method = .post) :
    ∃ signedHeaders, Standard request signedHeaders := by
  rcases h with hget | hpost
  · exact ⟨["host".toList, "date".toList, requestTarget],
      { default := by rw [hget]; rfl
        normal := by decide
        text := by decide
        strong := by rw [verifySignatureStrength, hget]; rfl
        known := by simp }⟩
  · exact ⟨["host".toList, "date".toList, "digest".toList, requestTarget],
      { default := by rw [hpost]; rfl
        normal := by decide
        text := by decide
        strong := by rw [verifySignatureStrength, hpost]; rfl
        known := by simp [hpost] }⟩

theorem sameButSignature_withSignature (request : HttpSignatureRequest) (signature : Text) :
    SameButSignature request (request.withSignature signature) where
  method := rfl
  path := rfl
  body := rfl
  headers _ hname := lookup_insert _ _ _ hname

theorem Standard.date_mem (h : Standard request signedHeaders) : "date".toList ∈ signedHeaders :=
  (verifySignatureStrength_ok h.strong).1

theorem Standard.unsigned (h : Standard request signedHeaders) :
    "signature".toList ∉ signedHeaders := by
  intro hmem
  rcases h.known _ hmem with heq | heq | heq | ⟨heq, -⟩ <;> exact absurd heq (by decide)

/-- A digest that matches is accepted. -/
theorem Signable.verifyBodyDigest (h : Signable env request signer now)
    (hstandard : Standard request signedHeaders) :
    verifyBodyDigest env request signedHeaders = .ok () := by
  by_cases hdigest : "digest".toList ∈ signedHeaders
  · have hpost : request.method = .post := by
      rcases hstandard.known _ hdigest with heq | heq | heq | ⟨-, hpost⟩
      · exact absurd heq (by decide)
      · exact absurd heq (by decide)
      · exact absurd heq (by decide)
      · exact hpost
    obtain ⟨text, htext, hreceived⟩ := h.digest hpost
    have hcontains : signedHeaders.contains "digest".toList = true := by simpa using hdigest
    rw [Signatures.verifyBodyDigest, hcontains, htext]
    simp only [Bool.not_true, Bool.false_eq_true, if_false, ok_bind, hreceived, okOr_some_bind]
    exact if_pos List.drop_left.symm
  · have hcontains : signedHeaders.contains "digest".toList = false := by simpa using hdigest
    rw [Signatures.verifyBodyDigest, hcontains]
    rfl

/-- Every header signed by default is there. -/
theorem Signable.buildSignedString (h : Signable env request signer now)
    (hstandard : Standard request signedHeaders) :
    ∃ message, buildSignedString request signedHeaders true = .ok message := by
  have hvalue : ∀ header ∈ signedHeaders, ∃ value, signedValue request true header = .ok value := by
    intro header hmem
    by_cases htarget : header = requestTarget
    · exact ⟨_, by rw [signedValue, if_pos htarget]; rfl⟩
    · rw [signedValue, if_neg htarget]
      rcases hstandard.known _ hmem with rfl | rfl | heq | ⟨rfl, hpost⟩
      · exact h.host
      · exact h.date.imp fun _ hdate => hdate.choose_spec.1
      · exact absurd heq htarget
      · exact (h.digest hpost).imp fun _ hdigest => hdigest.1
  have hlines : ∃ lines, (signedHeaders.mapM fun header => do
      let value ← signedValue request true header
      pure (header ++ ": ".toList ++ value)) = .ok lines := by
    clear hstandard
    induction signedHeaders with
    | nil => exact ⟨[], rfl⟩
    | cons header rest ih =>
      obtain ⟨value, hheader⟩ := hvalue header (List.mem_cons_self ..)
      obtain ⟨lines, hrest⟩ := ih fun header hmem => hvalue header (List.mem_cons_of_mem _ hmem)
      rw [List.mapM_cons, hheader, hrest]
      exact ⟨_, rfl⟩
  obtain ⟨lines, hlines⟩ := hlines
  exact ⟨join "\n".toList lines, by rw [Signatures.buildSignedString, hlines]; rfl⟩

/-- What is signed, and how it is written. -/
theorem Signable.signHttpSignature (h : Signable env request signer now)
    (hstandard : Standard request signedHeaders) {message : Text}
    (hmessage : Signatures.buildSignedString request signedHeaders true = .ok message) :
    signHttpSignature env request signer =
      match env.signRsaSha256 signer.privateKeyPem message with
      | .error e => .error (mapSigningError e)
      | .ok signature => .ok (signatureHeader signer.keyId signedHeaders signature) := by
  have hmethod : (!(decide (request.method = .get) || decide (request.method = .post))) = false := by
    rcases h.method with hget | hpost
    · rw [hget]; rfl
    · rw [hpost]; rfl
  rw [Signatures.signHttpSignature, hstandard.default, ok_bind, signHttpSignatureWithHeaders,
    hmethod, failIf_false, ok_bind, h.keyId.1, ok_bind, hstandard.normal, ok_bind,
    h.verifyBodyDigest hstandard, hmessage]
  split <;> rfl

/-- What the signer writes is verified. -/
theorem Signable.verifyHttpSignature (h : Signable env request signer now)
    (hstandard : Standard request signedHeaders) {message publicKeyPem : Text} {signature : Bytes}
    (hmessage : Signatures.buildSignedString request signedHeaders true = .ok message)
    (hrsa : env.verifyRsaSha256 publicKeyPem message signature = .ok ()) :
    verifyHttpSignature env
        (request.withSignature (signatureHeader signer.keyId signedHeaders signature))
        ⟨signer.keyId, publicKeyPem⟩ now =
      .ok ⟨signer.keyId, signedHeaders⟩ := by
  have hsame := sameButSignature_withSignature request
    (signatureHeader signer.keyId signedHeaders signature)
  have hvisible := toStr_asBytes (signatureHeader_visible signature h.keyId.2
    fun c hc => (hstandard.text c hc).2)
  have hparsed := parseSignatureHeader_signatureHeader signature
    (isPlain_of_validateKeyId h.keyId.1) fun c hc => (hstandard.text c hc).1
  obtain ⟨date, created, hdate, hcreated, hearly, hlate⟩ := h.date
  have hwindow := verifyTimeWindow_without hstandard.date_mem hdate hcreated hearly hlate
  have hverified : verifySignature env request ⟨signer.keyId, publicKeyPem⟩ signer.keyId
      signedHeaders signature = .ok ⟨signer.keyId, signedHeaders⟩ := by
    rw [verifySignature, hmessage, ok_bind, hrsa]
    rfl
  rw [Signatures.verifyHttpSignature, hsame.headers _ (by decide), h.input]
  have hvalue : (request.withSignature (signatureHeader signer.keyId signedHeaders
      signature)).headers.get "signature".toList =
      some (asBytes (signatureHeader signer.keyId signedHeaders signature)) := rfl
  rw [hvalue, Option.isSome_none, failIf_false, ok_bind, okOr_some_bind, hvisible, okOr_some_bind,
    hparsed, ok_bind]
  refine (verifyParameters_eq rfl h.keyId.1 rfl rfl hstandard.normal rfl
    (Schemes.Base64.decode_encode signature) (hsame.verifySignatureStrength.trans hstandard.strong)
    ((hsame.verifyTimeWindow none).trans hwindow)
    (hsame.verifyBodyDigest.trans (h.verifyBodyDigest hstandard))).trans ?_
  exact (hsame.verifySignature hstandard.unsigned ..).trans hverified

/-- CORRECT (round trip): what `sign_http_signature` returns is accepted under the matching key, with
    the signer's key id and exactly the headers it signed; and it returns a header whenever RSA
    signs. -/
theorem sign_verify (env : Env) (request : HttpSignatureRequest) (signer : HttpSignatureSigner)
    (publicKeyPem : Text) (now : ℤ) (h : Signable env request signer now)
    (hmatching : ∀ message signature, env.signRsaSha256 signer.privateKeyPem message = .ok signature →
      env.verifyRsaSha256 publicKeyPem message signature = .ok ()) :
    (∀ header, signHttpSignature env request signer = .ok header →
      ∃ signedHeaders, defaultSignedHeaders request.method = .ok signedHeaders ∧
        verifyHttpSignature env (request.withSignature header) ⟨signer.keyId, publicKeyPem⟩ now =
          .ok ⟨signer.keyId, signedHeaders⟩) ∧
    ((∀ message, ∃ signature, env.signRsaSha256 signer.privateKeyPem message = .ok signature) →
      ∃ header, signHttpSignature env request signer = .ok header) := by
  obtain ⟨signedHeaders, hstandard⟩ := exists_standard h.method
  obtain ⟨message, hmessage⟩ := h.buildSignedString hstandard
  have hsign := h.signHttpSignature hstandard hmessage
  refine ⟨fun header hheader => ⟨signedHeaders, hstandard.default, ?_⟩, fun htotal => ?_⟩
  · rw [hsign] at hheader
    cases hrsa : env.signRsaSha256 signer.privateKeyPem message with
    | error e =>
      rw [hrsa] at hheader
      cases hheader
    | ok signature =>
      rw [hrsa] at hheader
      obtain rfl := Except.ok.inj hheader
      exact h.verifyHttpSignature hstandard hmessage (hmatching message signature hrsa)
  · obtain ⟨signature, hrsa⟩ := htotal message
    exact ⟨_, by rw [hsign, hrsa]⟩

/-- A delivery with an empty body at the epoch. -/
def epochDelivery : HttpSignatureRequest where
  method := .post
  pathAndQuery := "/inbox?a=b".toList
  headers := [("host".toList, asBytes "r.example".toList),
    ("date".toList, asBytes "Thu, 01 Jan 1970 00:00:00 GMT".toList),
    ("digest".toList,
      asBytes "SHA-256=47DEQpj8HBSa+/TImW+5JCeuQeRkm5NMpJWZG3hSuFU=".toList)]
  body := []

/-- A key whose signatures are the messages, and the digest of the empty body. -/
def deliveryEnv : Env where
  signRsaSha256 _ message := .ok (asBytes message)
  verifyRsaSha256 _ message signature :=
    if signature = asBytes message then .ok () else .error .signatureVerificationFailed
  sha256 body := if body = [] then
      [0xe3, 0xb0, 0xc4, 0x42, 0x98, 0xfc, 0x1c, 0x14, 0x9a, 0xfb, 0xf4, 0xc8, 0x99, 0x6f, 0xb9,
        0x24, 0x27, 0xae, 0x41, 0xe4, 0x64, 0x9b, 0x93, 0x4c, 0xa4, 0x95, 0x99, 0x1b, 0x78, 0x52,
        0xb8, 0x55]
    else []
  parseHttpDate date := if date = "Thu, 01 Jan 1970 00:00:00 GMT".toList then some 0 else none

theorem epochDelivery_signable : Signable deliveryEnv epochDelivery
    ⟨"https://s.example/users/b#main-key".toList, []⟩ 0 where
  method := .inr rfl
  host := ⟨"r.example".toList, by decide⟩
  date := ⟨"Thu, 01 Jan 1970 00:00:00 GMT".toList, 0, by decide, by decide,
    by decide, by decide⟩
  digest _ := ⟨"SHA-256=47DEQpj8HBSa+/TImW+5JCeuQeRkm5NMpJWZG3hSuFU=".toList,
    by decide, by decide⟩
  keyId := ⟨by decide, by decide⟩
  input := by decide

theorem sign_verify_epoch : ∃ header,
    signHttpSignature deliveryEnv epochDelivery
      ⟨"https://s.example/users/b#main-key".toList, []⟩ = .ok header ∧
    verifyHttpSignature deliveryEnv (epochDelivery.withSignature header)
        ⟨"https://s.example/users/b#main-key".toList, []⟩ 0 =
      .ok ⟨"https://s.example/users/b#main-key".toList,
        ["host".toList, "date".toList, "digest".toList, requestTarget]⟩ := by
  obtain ⟨hverify, hsign⟩ := sign_verify deliveryEnv epochDelivery
    ⟨"https://s.example/users/b#main-key".toList, []⟩ [] 0 epochDelivery_signable
    (fun message signature h => if_pos (Except.ok.inj h).symm)
  obtain ⟨header, hheader⟩ := hsign fun message => ⟨_, rfl⟩
  obtain ⟨signedHeaders, hdefault, hok⟩ := hverify header hheader
  obtain rfl := Except.ok.inj hdefault
  exact ⟨header, hheader, hok⟩

end Rustodon.Signatures
