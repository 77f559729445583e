import Rustodon.Remote.Url
import Rustodon.Schemes.Checked

/-! @src remote.rs | name:Canonical domains | scheme:urls | family:remote

    The domain under which a peer is stored is written from a host and a port, and reading it as an
    origin gives both back. It is stable except for two kinds of URLs: `http` at port 443, which an
    origin reads as the default port, and hosts with several dots behind them. -/

namespace Rustodon.Remote
open Schemes.Checked Schemes.Utf8

/-! ### Hosts -/

def isHostChar (c : Char) : Bool :=
  !isWhitespace c && !isExcluded c && !isSlash c && c != ':' && c != '[' && c != ']'

def isAddressChar (c : Char) : Bool := c.isDigit || c == ':' || ('a'.toNat ≤ c.toNat && c.toNat ≤ 'f'.toNat)

/-- The text of a host: an IPv6 address in brackets, or a name or an IPv4 address. -/
def IsHost (host : Text) : Prop :=
  (∃ address, host = '[' :: (address ++ [']']) ∧ ':' ∈ address ∧
    ∀ c ∈ address, isAddressChar c = true) ∨
    host ≠ [] ∧ ∀ c ∈ host, isHostChar c = true

/-- What reading a URL is documented to do: the text of a host is read as itself, also without the
    one dot that may stand behind it, and a segment that is not made of dots is kept in the path. -/
structure UrlLaws (parsers : UrlParsers) : Prop where
  host_text : ∀ s host, parsers.host s = some host → IsHost host
  host_host : ∀ s host, parsers.host s = some host → parsers.host host = some host
  host_dot : ∀ s host, parsers.host s = some (host ++ ['.']) → host ≠ [] → ¬['.'] <:+ host →
    parsers.host host = some host
  path_root : parsers.path ['/'] = ['/']
  path_onion : ∀ rest, onion <:+ toAsciiLowercase rest → parsers.path (rest ++ ['/']) ≠ ['/']

/-- What holds of every parsed URL: its host has been read, and its port is not the default one. -/
structure Url.Parsed (parsers : UrlParsers) (url : Url) : Prop where
  host : url.scheme = http ∨ url.scheme = https → ∀ host, url.host = some host →
    ∃ s, parsers.host s = some host
  port : ∀ port, url.port = some port → port < 65536 ∧ some port ≠ defaultPort url.scheme

/-- A host as domains contain it: without brackets, and without dots behind it. -/
structure Trimmed (host : Text) : Prop where
  nonempty : host ≠ []
  chars : (':' ∈ host ∧ ∀ c ∈ host, isAddressChar c = true) ∨ ∀ c ∈ host, isHostChar c = true
  dots : ¬['.'] <:+ host

def hostText (host : Text) : Text := if ':' ∈ host then '[' :: (host ++ [']']) else host

def portText : Option ℕ → Text
  | some port => ':' :: Nat.toDigits 10 port
  | none => []

theorem domainText_eq (host : Text) (port : Option ℕ) :
    domainText host port = hostText host ++ portText port := by
  cases port with
  | none => rw [portText, List.append_nil]; rfl
  | some port => rfl

theorem trimDots_concat_dot (s : Text) : trimDots (s ++ ['.']) = trimDots s :=
  List.rdropWhile_concat_pos _ _ _ (by decide)

theorem trimDots_eq_self {s : Text} (h : ¬['.'] <:+ s) : trimDots s = s := by
  rw [trimDots, List.rdropWhile_eq_self_iff]
  intro hne hdot
  refine h ⟨s.dropLast, ?_⟩
  rw [← beq_iff_eq.mp hdot]
  exact List.dropLast_append_getLast hne

theorem colon_not_mem {host : Text} (h : ∀ c ∈ host, isHostChar c = true) : ':' ∉ host :=
  fun hmem => absurd (h ':' hmem) (by decide)

theorem hostText_plain {host : Text} (h : ∀ c ∈ host, isHostChar c = true) : hostText host = host :=
  if_neg (colon_not_mem h)

theorem trimHost_plain {host : Text} (h : ∀ c ∈ host, isHostChar c = true) :
    trimHost host = trimDots host := by
  have hopen : host.dropWhile (· == '[') = host := by
    cases host with
    | nil => rfl
    | cons c s =>
      refine List.dropWhile_cons_of_neg fun hc => ?_
      have hchar := h c List.mem_cons_self
      rw [beq_iff_eq.mp hc] at hchar
      exact absurd hchar (by decide)
  have hclose : host.rdropWhile (· == ']') = host := by
    rw [List.rdropWhile_eq_self_iff]
    intro hne hc
    have hchar := h _ (List.getLast_mem hne)
    rw [beq_iff_eq.mp hc] at hchar
    exact absurd hchar (by decide)
  rw [trimHost, hopen, hclose]

theorem trimHost_bracketed {address : Text} (h : ∀ c ∈ address, isAddressChar c = true)
    (hcolon : ':' ∈ address) : trimHost ('[' :: (address ++ [']'])) = address := by
  have hchar (c : Char) (hc : c ∈ address) (hnot : isAddressChar c = false) : False := by
    rw [h c hc] at hnot
    cases hnot
  have hne : address ≠ [] := List.ne_nil_of_mem hcolon
  have hopen : ('[' :: (address ++ [']'])).dropWhile (· == '[') = address ++ [']'] := by
    rw [List.dropWhile_cons_of_pos (by decide)]
    cases haddress : address with
    | nil => exact absurd haddress hne
    | cons c s =>
      refine List.dropWhile_cons_of_neg fun hc => hchar c (by rw [haddress]; simp) ?_
      rw [beq_iff_eq.mp hc]
      decide
  rw [trimHost, hopen, List.rdropWhile_concat_pos _ _ _ (by decide)]
  have hclose : address.rdropWhile (· == ']') = address := by
    rw [List.rdropWhile_eq_self_iff]
    intro hne hc
    refine hchar _ (List.getLast_mem hne) ?_
    rw [beq_iff_eq.mp hc]
    decide
  rw [hclose]
  refine trimDots_eq_self fun ⟨init, hinit⟩ => hchar '.' ?_ (by decide)
  rw [← hinit]
  simp

theorem not_dot_trimDots (s : Text) : ¬['.'] <:+ trimDots s := by
  rintro ⟨init, hinit⟩
  have hne : trimDots s ≠ [] := by rw [← hinit]; simp
  have hlast := List.rdropWhile_last_not (· == '.') s hne
  refine hlast (beq_iff_eq.mpr ?_)
  change (trimDots s).getLast hne = '.'
  simp only [← hinit, List.getLast_concat]

/-- A trimmed host and the host that it comes from. -/
theorem trimHost_spec {host : Text} (h : IsHost host) (hne : trimHost host ≠ []) :
    Trimmed (trimHost host) ∧ hostText (trimHost host) = trimDots host := by
  rcases h with ⟨address, rfl, hcolon, hchars⟩ | ⟨-, hchars⟩
  · rw [trimHost_bracketed hchars hcolon]
    have hdots : ¬['.'] <:+ address := by
      rintro ⟨init, rfl⟩
      exact absurd (hchars '.' (by simp)) (by decide)
    refine ⟨⟨List.ne_nil_of_mem hcolon, .inl ⟨hcolon, hchars⟩, hdots⟩, ?_⟩
    rw [hostText, if_pos hcolon, trimDots_eq_self]
    rintro ⟨init, hinit⟩
    have hlast := congrArg List.getLast? hinit
    rw [← List.cons_append, List.getLast?_concat, List.getLast?_concat] at hlast
    exact absurd hlast (by decide)
  · rw [trimHost_plain hchars] at hne ⊢
    have htrimmed : ∀ c ∈ trimDots host, isHostChar c = true := fun c hc =>
      hchars c ((List.rdropWhile_prefix _ host).subset hc)
    exact ⟨⟨hne, .inr htrimmed, not_dot_trimDots host⟩, hostText_plain htrimmed⟩

/-- Without its dots a host is read as itself, when it has at most one of them. -/
theorem host_trimDots {parsers : UrlParsers} (laws : UrlLaws parsers) {s host : Text}
    (h : parsers.host s = some host) (hdots : ¬['.', '.'] <:+ host) (hne : trimDots host ≠ []) :
    parsers.host (trimDots host) = some (trimDots host) := by
  by_cases hlast : ['.'] <:+ host
  · obtain ⟨init, rfl⟩ := hlast
    have hinit : ¬['.'] <:+ init := by
      rintro ⟨init, rfl⟩
      exact hdots ⟨init, by simp⟩
    rw [trimDots_concat_dot, trimDots_eq_self hinit] at hne ⊢
    exact laws.host_dot s init h hne hinit
  · rw [trimDots_eq_self hlast]
    exact laws.host_host s host h

/-! ### Reading a domain again -/

theorem isHostChar_spec {c : Char} (h : isHostChar c = true) : isWhitespace c = false ∧
    isExcluded c = false ∧ isSlash c = false ∧ c ≠ ':' ∧ c ≠ '[' ∧ c ≠ ']' := by
  simp only [isHostChar, Bool.and_eq_true, Bool.not_eq_true', bne_iff_ne] at h
  obtain ⟨⟨⟨⟨⟨hwhite, hexcluded⟩, hslash⟩, hcolon⟩, hopen⟩, hclose⟩ := h
  exact ⟨hwhite, hexcluded, hslash, hcolon, hopen, hclose⟩

theorem isAddressChar_spec {c : Char} (h : isAddressChar c = true) : isWhitespace c = false ∧
    isExcluded c = false ∧ isSlash c = false ∧ c ≠ '[' ∧ c ≠ ']' := by
  have hnot (p : Char → Bool) (hp : ∀ n : Fin 128, isAddressChar (Char.ofNat n) = true →
      p (Char.ofNat n) = false) : p c = false := by
    have hlt : c.toNat < 128 := by
      simp only [isAddressChar, Char.isDigit, Bool.or_eq_true, Bool.and_eq_true, beq_iff_eq,
        decide_eq_true_eq] at h
      rcases h with (⟨-, hle⟩ | rfl) | ⟨-, hle⟩
      · exact lt_of_le_of_lt (UInt32.le_iff_toNat_le.mp hle) (by decide)
      · decide
      · exact lt_of_le_of_lt hle (by decide)
    have hc : Char.ofNat (⟨c.toNat, hlt⟩ : Fin 128) = c := Char.ofNat_toNat c
    rw [← hc] at h ⊢
    exact hp _ h
  refine ⟨hnot isWhitespace (by decide), hnot isExcluded (by decide), hnot isSlash (by decide), ?_, ?_⟩
  · have hopen := hnot (· == '[') (by decide)
    exact fun heq => absurd (beq_iff_eq.mpr heq) (by rw [hopen]; decide)
  · have hclose := hnot (· == ']') (by decide)
    exact fun heq => absurd (beq_iff_eq.mpr heq) (by rw [hclose]; decide)

/-- What may follow a host. -/
def EndsHost (rest : Text) : Prop := ∃ c s, rest = c :: s ∧ (c = ':' ∨ isSlash c = true)

theorem takeHost_plain {host rest : Text} (h : ∀ c ∈ host, isHostChar c = true)
    (hrest : EndsHost rest) : takeHost false (host ++ rest) = (host, rest) := by
  induction host with
  | nil =>
    obtain ⟨c, s, rfl, hend⟩ := hrest
    rw [List.nil_append, takeHost, if_pos]
    rcases hend with rfl | hslash
    · decide
    · rw [hslash, Bool.or_true]
  | cons c host ih =>
    obtain ⟨-, -, hslash, hcolon, hopen, hclose⟩ := isHostChar_spec (h c List.mem_cons_self)
    rw [List.cons_append, takeHost, if_neg (by simp [hslash, hcolon]), if_neg hopen, if_neg hclose,
      ih fun c hc => h c (List.mem_cons_of_mem _ hc)]

theorem takeHost_address {address rest : Text} (h : ∀ c ∈ address, isAddressChar c = true)
    (hrest : EndsHost rest) :
    takeHost true (address ++ ']' :: rest) = (address ++ [']'], rest) := by
  induction address with
  | nil =>
    have hnone := @takeHost_plain [] rest (by simp) hrest
    rw [List.nil_append] at hnone ⊢
    rw [takeHost, if_neg (by decide), if_neg (by decide), if_pos rfl, hnone]
    rfl
  | cons c address ih =>
    obtain ⟨-, -, hslash, hopen, hclose⟩ := isAddressChar_spec (h c List.mem_cons_self)
    rw [List.cons_append, takeHost, if_neg (by simp [hslash]), if_neg hopen, if_neg hclose,
      ih fun c hc => h c (List.mem_cons_of_mem _ hc)]
    rfl

theorem Trimmed.plain_of_not_mem {host : Text} (h : Trimmed host) (hcolon : ':' ∉ host) :
    ∀ c ∈ host, isHostChar c = true :=
  h.chars.resolve_left fun haddress => hcolon haddress.1

theorem Trimmed.address_of_mem {host : Text} (h : Trimmed host) (hcolon : ':' ∈ host) :
    ∀ c ∈ host, isAddressChar c = true := by
  rcases h.chars with ⟨-, haddress⟩ | hplain
  · exact haddress
  · exact absurd hcolon (colon_not_mem hplain)

theorem takeHost_hostText {host rest : Text} (h : Trimmed host) (hrest : EndsHost rest) :
    takeHost false (hostText host ++ rest) = (hostText host, rest) := by
  rw [hostText]
  split_ifs with hcolon
  · rw [List.cons_append, List.append_assoc, List.singleton_append, takeHost, if_neg (by decide),
      if_pos rfl, takeHost_address (h.address_of_mem hcolon) hrest]
  · exact takeHost_plain (h.plain_of_not_mem hcolon) hrest

theorem portText_endsHost (port : Option ℕ) (rest : Text) :
    EndsHost (portText port ++ '/' :: rest) := by
  cases port with
  | none => exact ⟨'/', rest, rfl, .inr (by decide)⟩
  | some port => exact ⟨':', _, rfl, .inl rfl⟩

theorem isDigit_of_mem_toDigits {port : ℕ} {c : Char} (h : c ∈ Nat.toDigits 10 port) :
    c.isDigit = true :=
  Nat.isDigit_of_mem_toDigits (by decide) (by decide) h

theorem parsePort_portText {port : Option ℕ} (hport : ∀ p, port = some p → p < 65536)
    (default : Option ℕ) : parsePort default (portText port ++ ['/']) =
      some (port.filter fun p => decide (some p ≠ default), ['/']) := by
  cases port with
  | none => rfl
  | some p =>
    have hdigits : ∀ c ∈ Nat.toDigits 10 p, c.isDigit = true := fun c hc => isDigit_of_mem_toDigits hc
    have htake : (Nat.toDigits 10 p ++ ['/']).takeWhile Char.isDigit = Nat.toDigits 10 p := by
      rw [List.takeWhile_append_of_pos hdigits]
      simp
    have hdrop : (Nat.toDigits 10 p ++ ['/']).dropWhile Char.isDigit = ['/'] := by
      rw [List.dropWhile_append_of_pos hdigits]
      rfl
    have hne : Nat.toDigits 10 p ≠ [] := Nat.toDigits_ne_nil
    rw [portText, List.cons_append, parsePort, if_pos List.head?_cons]
    simp only [List.tail_cons, htake, hdrop, Nat.ofDigitChars_ten_toDigits]
    rw [if_pos ⟨by decide, hport p rfl⟩]
    rw [Option.filter_some]
    by_cases hdefault : some p = default
    · rw [if_pos (.inr hdefault), if_neg (by simpa using hdefault)]
    · rw [if_neg (by simp [hne, hdefault]), if_pos (by simpa using hdefault)]

theorem hostText_ne_nil {host : Text} (h : Trimmed host) : hostText host ≠ [] := by
  rw [hostText]
  split_ifs
  · exact List.cons_ne_nil _ _
  · exact h.nonempty

theorem hostText_head {host : Text} (h : Trimmed host) : ∃ c s, hostText host = c :: s ∧
    isSlash c = false ∧ isWhitespace c = false := by
  rw [hostText]
  split_ifs with hcolon
  · exact ⟨'[', _, rfl, by decide, by decide⟩
  · obtain ⟨c, s, rfl⟩ := List.exists_cons_of_ne_nil h.nonempty
    obtain ⟨hwhite, -, hslash, -⟩ :=
      isHostChar_spec (h.plain_of_not_mem hcolon c List.mem_cons_self)
    exact ⟨c, s, rfl, hslash, hwhite⟩

theorem not_excluded_hostText {host : Text} (h : Trimmed host) :
    ∀ c ∈ hostText host, isExcluded c = false := by
  intro c hc
  rw [hostText] at hc
  split_ifs at hc with hcolon
  · rw [List.mem_cons, List.mem_append, List.mem_singleton] at hc
    rcases hc with rfl | hc | rfl
    · decide
    · exact (isAddressChar_spec (h.address_of_mem hcolon c hc)).2.1
    · decide
  · exact (isHostChar_spec (h.plain_of_not_mem hcolon c hc)).2.1

theorem isDigit_spec {c : Char} (h : c.isDigit = true) : isExcluded c = false ∧ c ≠ '.' := by
  have hplain : isAddressChar c = true := by rw [isAddressChar, h]; rfl
  refine ⟨(isAddressChar_spec hplain).2.1, ?_⟩
  rintro rfl
  exact absurd h (by decide)

theorem not_excluded_domainText {host : Text} (h : Trimmed host) (port : Option ℕ) :
    (domainText host port).any isExcluded = false := by
  rw [List.any_eq_false]
  intro c hc
  rw [Bool.not_eq_true]
  rw [domainText_eq, List.mem_append] at hc
  rcases hc with hc | hc
  · exact not_excluded_hostText h c hc
  · cases port with
    | none => cases hc
    | some port =>
      rw [portText, List.mem_cons] at hc
      rcases hc with rfl | hc
      · decide
      · exact (isDigit_spec (isDigit_of_mem_toDigits hc)).1

/-- A domain ends in the last character of its host, or in a digit. -/
theorem domainText_no_dot {host : Text} (h : Trimmed host) (port : Option ℕ) :
    ¬['.'] <:+ domainText host port := by
  rw [domainText_eq]
  cases port with
  | none =>
    rw [portText, List.append_nil, hostText]
    split_ifs
    · rintro ⟨init, hinit⟩
      have hlast := congrArg List.getLast? hinit
      rw [← List.cons_append, List.getLast?_concat, List.getLast?_concat] at hlast
      exact absurd hlast (by decide)
    · exact h.dots
  | some port =>
    rintro ⟨init, hinit⟩
    have hne : Nat.toDigits 10 port ≠ [] := Nat.toDigits_ne_nil
    rw [portText, ← List.dropLast_append_getLast hne, ← List.cons_append, ← List.append_assoc] at hinit
    have hlast := congrArg List.getLast? hinit
    rw [List.getLast?_concat, List.getLast?_concat] at hlast
    have hdigit := isDigit_of_mem_toDigits (List.getLast_mem hne)
    exact (isDigit_spec hdigit).2 (Option.some.inj hlast).symm

theorem toLower_digit {c : Char} (h : c.isDigit = true) : c.toLower = c := by
  refine toLower_eq_self fun hupper => ?_
  have hlow : 65 ≤ c.val.toNat := UInt32.le_iff_toNat_le.mp (of_decide_eq_true hupper).1
  simp only [Char.isDigit, Bool.and_eq_true, decide_eq_true_eq] at h
  have hhigh : c.val.toNat ≤ 57 := UInt32.le_iff_toNat_le.mp h.2
  omega

/-- A domain with a port is no onion name. -/
theorem originScheme_port (host : Text) (port : ℕ) :
    originScheme (domainText host (some port)) = https := by
  rw [originScheme, if_neg]
  rw [List.isSuffixOf_iff_suffix, domainText_eq, portText]
  rintro ⟨init, hinit⟩
  have hne : Nat.toDigits 10 port ≠ [] := Nat.toDigits_ne_nil
  rw [← List.dropLast_append_getLast hne, toAsciiLowercase, List.map_append, List.map_cons,
    List.map_append, List.map_singleton, ← List.cons_append, ← List.append_assoc] at hinit
  have hlast := congrArg List.getLast? hinit
  have honion : onion = ['.', 'o', 'n', 'i', 'o'] ++ ['n'] := rfl
  rw [honion, ← List.append_assoc, List.getLast?_concat, List.getLast?_concat] at hlast
  have hdigit := isDigit_of_mem_toDigits (List.getLast_mem hne)
  rw [toLower_digit hdigit] at hlast
  rw [← Option.some.inj hlast] at hdigit
  exact absurd hdigit (by decide)

/-- Only the port that is the default one of the origin's scheme is lost in reading a domain. -/
theorem remoteOrigin_domainText {parsers : UrlParsers} (laws : UrlLaws parsers) {host : Text}
    (h : Trimmed host) (hread : parsers.host (hostText host) = some (hostText host))
    {port : Option ℕ} (hport : ∀ p, port = some p → p < 65536) :
    ∃ origin, remoteOrigin parsers (domainText host port) = .ok origin ∧
      origin.scheme = originScheme (domainText host port) ∧ origin.host = some (hostText host) ∧
      origin.port = port.filter fun p => decide (some p ≠ defaultPort origin.scheme) := by
  obtain ⟨c, s, hhead, hslash, hwhite⟩ := hostText_head h
  have hall : (domainText host port).all isWhitespace = false := by
    rw [domainText_eq, hhead, List.cons_append, List.all_cons, hwhite, Bool.false_and]
  have hdrop : (domainText host port ++ ['/']).dropWhile isSlash =
      hostText host ++ (portText port ++ ['/']) := by
    rw [domainText_eq, List.append_assoc, hhead, List.cons_append,
      List.dropWhile_cons_of_neg (by rw [hslash]; decide)]
  rw [remoteOrigin, trimDots_eq_self (domainText_no_dot h port)]
  simp only [hall, not_excluded_domainText h port, Bool.false_eq_true, or_self, if_false]
  rw [parseOrigin, hdrop, takeHost_hostText h (portText_endsHost port [])]
  simp only [hostText_ne_nil h, if_false, hread, Option.bind_some, parsePort_portText hport,
    Option.map_some, laws.path_root]
  exact ⟨_, if_neg (by simp), rfl, rfl, rfl⟩

theorem trimHost_hostText {host : Text} (h : Trimmed host) : trimHost (hostText host) = host := by
  rw [hostText]
  split_ifs with hcolon
  · exact trimHost_bracketed (h.address_of_mem hcolon) hcolon
  · rw [trimHost_plain (h.plain_of_not_mem hcolon), trimDots_eq_self h.dots]

/-- What the domain of an origin is written from. -/
theorem domainFromOrigin_eq {origin : Url} {host : Text} (hhost : origin.host = some host)
    (hne : trimHost host ≠ [])
    (hport : ∀ p, origin.port = some p → some p ≠ defaultPort origin.scheme) :
    canonicalRemoteDomainFromOrigin origin = .ok (domainText (trimHost host) origin.port) := by
  have hkeep : (origin.port.filter fun p => decide (some p ≠ defaultPort origin.scheme)) =
      origin.port := by
    cases horigin : origin.port with
    | none => rfl
    | some p => rw [Option.filter_some, if_pos (decide_eq_true (hport p horigin))]
  have htrim : canonicalRemoteHostFromOrigin origin = .ok (trimHost host) := by
    rw [canonicalRemoteHostFromOrigin, hhost]
  rw [canonicalRemoteDomainFromOrigin, htrim]
  exact (if_neg hne).trans (by rw [hkeep])

theorem filter_spec {port : Option ℕ} {default : Option ℕ} {p : ℕ}
    (h : (port.filter fun p => decide (some p ≠ default)) = some p) :
    port = some p ∧ some p ≠ default := by
  obtain ⟨hsome, hne⟩ := Option.filter_eq_some_iff.mp h
  exact ⟨hsome, of_decide_eq_true hne⟩

/-- Reading a domain and writing it again loses port 443, and nothing else. -/
theorem canonicalRemoteDomain_domainText {parsers : UrlParsers} (laws : UrlLaws parsers)
    {host : Text} (h : Trimmed host) (hread : parsers.host (hostText host) = some (hostText host))
    {port : Option ℕ} (hport : ∀ p, port = some p → p < 65536) :
    canonicalRemoteDomain parsers (domainText host port) =
      .ok (domainText host (port.filter fun p => decide (p ≠ 443))) := by
  have hdefault : (port.filter fun p => decide (some p ≠ defaultPort (originScheme
      (domainText host port)))) = port.filter fun p => decide (p ≠ 443) := by
    cases port with
    | none => rfl
    | some p =>
      rw [originScheme_port]
      have hhttps : defaultPort https = some 443 := by decide
      rw [hhttps]
      simp only [ne_eq, Option.some.injEq]
  obtain ⟨origin, horigin, hscheme, hhost, hfilter⟩ := remoteOrigin_domainText laws h hread hport
  have htrim := trimHost_hostText h
  rw [canonicalRemoteDomain, horigin, ok_bind, domainFromOrigin_eq hhost
    (by rw [htrim]; exact h.nonempty) fun p hp => (filter_spec (hfilter ▸ hp)).2, htrim, hfilter,
    hscheme, hdefault]

/-- A host and a port are written in one way. -/
theorem domainText_inj {host host' : Text} (h : Trimmed host) (h' : Trimmed host')
    {port port' : Option ℕ} (heq : domainText host port = domainText host' port') :
    host = host' ∧ port = port' := by
  have htake := takeHost_hostText h (portText_endsHost port [])
  have htake' := takeHost_hostText h' (portText_endsHost port' [])
  have happend : hostText host ++ (portText port ++ ['/']) =
      hostText host' ++ (portText port' ++ ['/']) := by
    rw [← List.append_assoc, ← List.append_assoc, ← domainText_eq, ← domainText_eq, heq]
  rw [happend, htake'] at htake
  obtain ⟨hhost, hrest⟩ := Prod.mk.inj htake
  constructor
  · rw [← trimHost_hostText h, ← hhost, trimHost_hostText h']
  · have hport := List.append_cancel_right hrest
    cases port with
    | none =>
      cases port' with
      | none => rfl
      | some p' => cases hport
    | some p =>
      cases port' with
      | none => cases hport
      | some p' =>
        have hdigits := congrArg (Nat.ofDigitChars 10 · 0) (List.cons.inj hport).2
        simp only [Nat.ofDigitChars_ten_toDigits] at hdigits
        rw [hdigits]

/-! ### Origins that are read from a domain -/

theorem remoteOrigin_cases {parsers : UrlParsers} {domain : Text} {origin : Url}
    (h : remoteOrigin parsers domain = .ok origin) :
    parseOrigin parsers (originScheme (trimDots domain)) (trimDots domain ++ ['/']) = some origin ∧
      origin.path = ['/'] := by
  rw [remoteOrigin] at h
  split_ifs at h
  split at h
  · cases h
  · rename_i origin' hparse
    split_ifs at h with hguard
    obtain rfl := Except.ok.inj h
    simp only [not_or, not_not] at hguard
    exact ⟨hparse, hguard.2.2.2.1⟩

theorem parseOrigin_cases {parsers : UrlParsers} {scheme rest : Text} {origin : Url}
    (h : parseOrigin parsers scheme rest = some origin) :
    ∃ hostText afterHost host port path,
      takeHost false (rest.dropWhile isSlash) = (hostText, afterHost) ∧
        parsers.host hostText = some host ∧
        parsePort (defaultPort scheme) afterHost = some (port, path) ∧
        origin = ⟨scheme, [], none, some host, port, parsers.path path, none, none⟩ := by
  rw [parseOrigin] at h
  rcases htake : takeHost false (rest.dropWhile isSlash) with ⟨hostText, afterHost⟩
  rw [htake] at h
  dsimp only at h
  split_ifs at h
  obtain ⟨host, hhost, h⟩ := Option.bind_eq_some_iff.mp h
  obtain ⟨⟨port, path⟩, hport, rfl⟩ := Option.map_eq_some_iff.mp h
  exact ⟨hostText, afterHost, host, port, path, rfl, hhost, hport, rfl⟩

theorem parsePort_spec {default : Option ℕ} {s : Text} {port : Option ℕ} {path : Text}
    (h : parsePort default s = some (port, path)) :
    (∀ p, port = some p → p < 65536 ∧ some p ≠ default) ∧
      (port = none ∧ path = s ∨ ∃ digits, s = ':' :: digits ++ path ∧
        (∀ c ∈ digits, c.isDigit = true) ∧ ∀ c ∈ path.head?, isSlash c = true) := by
  rw [parsePort] at h
  by_cases hcolon : s.head? = some ':'
  · rw [if_pos hcolon] at h
    simp only at h
    split at h
    · rename_i hguard
      obtain ⟨hport, rfl⟩ := Prod.mk.inj (Option.some.inj h)
      refine ⟨fun p hp => ?_, .inr ⟨s.tail.takeWhile Char.isDigit, ?_, fun c hc =>
        List.mem_takeWhile_imp hc, fun c hc => ?_⟩⟩
      · rw [← hport] at hp
        split_ifs at hp with hnone
        rw [← Option.some.inj hp]
        exact ⟨hguard.2, fun heq => hnone (.inr heq)⟩
      · rw [List.cons_append, List.takeWhile_append_dropWhile]
        exact (List.cons_head?_tail hcolon).symm
      · rw [Option.mem_def.mp hc] at hguard
        exact hguard.1
    · cases h
  · rw [if_neg hcolon] at h
    obtain ⟨rfl, rfl⟩ := Prod.mk.inj (Option.some.inj h)
    exact ⟨nofun, .inl ⟨rfl, rfl⟩⟩

theorem takeHost_append (inside : Bool) (s : Text) :
    (takeHost inside s).1 ++ (takeHost inside s).2 = s := by
  induction s generalizing inside with
  | nil => rfl
  | cons c s ih =>
    rw [takeHost]
    split_ifs
    · rfl
    · exact congrArg (c :: ·) (ih true)
    · exact congrArg (c :: ·) (ih false)
    · exact congrArg (c :: ·) (ih inside)

theorem not_onion_of_isSlash {c : Char} (h : isSlash c = true) : c.toLower ∉ onion := by
  rw [isSlash, Bool.or_eq_true, beq_iff_eq, beq_iff_eq] at h
  rcases h with rfl | rfl
  · decide
  · decide

/-- The name of an onion with a port in it ends behind a path. -/
theorem onion_behind_port {before digits rest : Text} (hdigits : ∀ c ∈ digits, c.isDigit = true)
    (hrest : ∀ c ∈ rest.head?, isSlash c = true)
    (h : onion <:+ toAsciiLowercase (before ++ (':' :: digits ++ rest))) :
    onion <:+ toAsciiLowercase rest := by
  have hsuffix : toAsciiLowercase rest <:+ toAsciiLowercase (before ++ (':' :: digits ++ rest)) :=
    ⟨toAsciiLowercase (before ++ ':' :: digits), by simp [toAsciiLowercase]⟩
  rcases List.suffix_or_suffix_of_suffix h hsuffix with hlong | hshort
  · exact hlong
  · exfalso
    cases rest with
    | cons c rest =>
      refine not_onion_of_isSlash (hrest c rfl) (hshort.subset ?_)
      rw [toAsciiLowercase, List.map_cons]
      exact List.mem_cons_self
    | nil =>
      rw [List.append_nil] at h
      obtain ⟨init, hinit⟩ := h
      have hne : (':' :: digits) ≠ [] := List.cons_ne_nil _ _
      rw [← List.dropLast_append_getLast hne, toAsciiLowercase, List.map_append, List.map_append,
        List.map_singleton, ← List.append_assoc] at hinit
      have honion : onion = ['.', 'o', 'n', 'i', 'o'] ++ ['n'] := rfl
      have hlast := congrArg List.getLast? hinit
      rw [honion, ← List.append_assoc, List.getLast?_concat, List.getLast?_concat] at hlast
      have hn := Option.some.inj hlast
      rcases List.mem_cons.mp (List.getLast_mem hne) with hcolon | hdigit
      · rw [hcolon] at hn
        exact absurd hn (by decide)
      · have hdigit := hdigits _ hdigit
        rw [toLower_digit hdigit] at hn
        rw [← hn] at hdigit
        exact absurd hdigit (by decide)

theorem remoteOrigin_port {parsers : UrlParsers} (laws : UrlLaws parsers) {domain : Text}
    {origin : Url} (h : remoteOrigin parsers domain = .ok origin) :
    ∀ p, origin.port = some p → p < 65536 ∧ some p ≠ defaultPort origin.scheme ∧ p ≠ 443 := by
  obtain ⟨hparse, hpath⟩ := remoteOrigin_cases h
  obtain ⟨hostText, afterHost, host, port, path, htake, -, hport, rfl⟩ := parseOrigin_cases hparse
  obtain ⟨hbound, hshape⟩ := parsePort_spec hport
  intro p hp
  obtain ⟨hlt, hdefault⟩ := hbound p hp
  refine ⟨hlt, hdefault, ?_⟩
  rintro rfl
  rw [originScheme] at hdefault
  split_ifs at hdefault with honion
  swap
  · exact hdefault (by decide)
  rw [List.isSuffixOf_iff_suffix] at honion
  obtain ⟨hnone, -⟩ | ⟨digits, rfl, hdigits, hslash⟩ := hshape
  · rw [hnone] at hp
    cases hp
  have hall := takeHost_append false ((trimDots domain ++ ['/']).dropWhile isSlash)
  rw [htake] at hall
  have hdomain := List.takeWhile_append_dropWhile (p := isSlash) (l := trimDots domain ++ ['/'])
  rw [← hall] at hdomain
  generalize (trimDots domain ++ ['/']).takeWhile isSlash = slashes at hdomain
  obtain rfl | ⟨rest, c, rfl⟩ := List.eq_nil_or_concat path
  · have hne : (':' :: digits) ≠ [] := List.cons_ne_nil _ _
    rw [List.append_nil, ← List.dropLast_append_getLast hne, ← List.append_assoc,
      ← List.append_assoc] at hdomain
    have hlast := List.singleton_inj.mp (List.append_inj' hdomain rfl).2
    rcases List.mem_cons.mp (List.getLast_mem hne) with hcolon | hdigit
    · rw [hcolon] at hlast
      exact absurd hlast (by decide)
    · have hdigit := hdigits _ hdigit
      rw [hlast] at hdigit
      exact absurd hdigit (by decide)
  · rw [List.concat_eq_append] at hslash hpath hdomain
    have hsplit : slashes ++ (hostText ++ (':' :: digits ++ (rest ++ [c]))) =
        (slashes ++ hostText ++ (':' :: digits ++ rest)) ++ [c] := by simp
    rw [hsplit] at hdomain
    obtain ⟨htrimmed, hc⟩ := List.append_inj' hdomain rfl
    rw [← htrimmed] at honion
    rw [hc] at hpath
    refine laws.path_onion rest (onion_behind_port hdigits (fun x hx => hslash x ?_) honion) hpath
    cases rest with
    | nil => cases hx
    | cons y rest => exact hx

/-! ### Stability -/

section Stability

variable {parsers : UrlParsers} {url url' : Url} {domain : Text}

theorem validateRemoteUrl_spec {u : Unit} (h : validateRemoteUrl url = .ok u) :
    (url.scheme = http ∨ url.scheme = https) ∧ ∃ host, url.host = some host ∧ host ≠ [] := by
  rw [validateRemoteUrl] at h
  split_ifs at h with hguard
  simp only [not_or] at hguard
  obtain ⟨hscheme, hhost, -⟩ := hguard
  rw [not_and_or, not_not, not_not] at hscheme
  cases heq : url.host with
  | none => exact absurd (by rw [heq]; rfl) hhost
  | some host =>
    rw [heq] at hhost
    exact ⟨hscheme, host, rfl, hhost⟩

theorem domainFromOrigin_cases (hparsed : url.Parsed parsers)
    (h : canonicalRemoteDomainFromOrigin url = .ok domain) :
    ∃ host, url.host = some host ∧ trimHost host ≠ [] ∧
      domain = domainText (trimHost host) url.port := by
  cases hhost : url.host with
  | none =>
    rw [canonicalRemoteDomainFromOrigin, canonicalRemoteHostFromOrigin, hhost] at h
    cases h
  | some host =>
    by_cases hne : trimHost host = []
    · rw [canonicalRemoteDomainFromOrigin, canonicalRemoteHostFromOrigin, hhost, ok_bind,
        if_pos hne] at h
      cases h
    · rw [domainFromOrigin_eq hhost hne fun p hp => (hparsed.port p hp).2] at h
      exact ⟨host, rfl, hne, (Except.ok.inj h).symm⟩

/-- What a domain is read as, when the host has at most one dot behind it. -/
theorem canonicalRemoteDomain_again (laws : UrlLaws parsers) (hparsed : url.Parsed parsers)
    (hscheme : url.scheme = http ∨ url.scheme = https) {host : Text} (hhost : url.host = some host)
    (hdots : ¬['.', '.'] <:+ host) (h : canonicalRemoteDomainFromOrigin url = .ok domain) :
    domain = domainText (trimHost host) url.port ∧ Trimmed (trimHost host) ∧
      canonicalRemoteDomain parsers domain =
        .ok (domainText (trimHost host) (url.port.filter fun p => decide (p ≠ 443))) := by
  obtain ⟨host', hhost', hne, rfl⟩ := domainFromOrigin_cases hparsed h
  obtain rfl := Option.some.inj (hhost.symm.trans hhost')
  obtain ⟨s, hs⟩ := hparsed.host hscheme host hhost
  obtain ⟨htrimmed, htext⟩ := trimHost_spec (laws.host_text s host hs) hne
  have hdomain : trimDots host ≠ [] := htext ▸ hostText_ne_nil htrimmed
  have hread := host_trimDots laws hs hdots hdomain
  rw [← htext] at hread
  exact ⟨rfl, htrimmed,
    canonicalRemoteDomain_domainText laws htrimmed hread fun p hp => (hparsed.port p hp).1⟩

theorem originScheme_cases (domain : Text) :
    originScheme domain = http ∨ originScheme domain = https := by
  rw [originScheme]
  split_ifs
  · exact .inl rfl
  · exact .inr rfl

theorem remoteOrigin_parsed (laws : UrlLaws parsers) {s : Text} {origin : Url}
    (h : remoteOrigin parsers s = .ok origin) :
    origin.Parsed parsers ∧ (origin.scheme = http ∨ origin.scheme = https) := by
  have hport := remoteOrigin_port laws h
  obtain ⟨hostText, _, host, port, path, -, hhost, -, rfl⟩ := parseOrigin_cases (remoteOrigin_cases h).1
  refine ⟨⟨fun _ host' hhost' => ?_, fun p hp => ?_⟩, originScheme_cases _⟩
  · obtain rfl := Option.some.inj hhost'
    exact ⟨hostText, hhost⟩
  · obtain ⟨hlt, hdefault, -⟩ := hport p hp
    exact ⟨hlt, hdefault⟩

theorem filter_eq_self_iff {port : Option ℕ} :
    (port.filter fun p => decide (p ≠ 443)) = port ↔ port ≠ some 443 := by
  cases port with
  | none => simp
  | some p =>
    rw [Option.filter_some]
    by_cases hp : p = 443
    · simp [hp]
    · simp [hp]

/-- CORRECT (Canonical domains): the domain of a URL tells its host, up to dots behind it, and its
    port, unless it is the default one; reading it as an origin gives the same domain again, unless
    it is `http` at port 443. Every domain that has been read from text is stable. Both suppose that
    at most one dot stands behind the host. -/
theorem canonical_domains (laws : UrlLaws parsers) :
    (∀ url domain host, url.Parsed parsers → canonicalRemoteDomainFromUrl url = .ok domain →
      url.host = some host → ¬['.', '.'] <:+ host →
        (canonicalRemoteDomain parsers domain = .ok domain ↔
          ¬(url.scheme = http ∧ url.port = some 443))) ∧
    (∀ url url' domain host host', url.Parsed parsers → url'.Parsed parsers →
      canonicalRemoteDomainFromUrl url = .ok domain → canonicalRemoteDomainFromUrl url' = .ok domain →
      url.host = some host → url'.host = some host' →
        trimDots host = trimDots host' ∧ url.port = url'.port) ∧
    ∀ s domain origin host, canonicalRemoteDomain parsers s = .ok domain →
      remoteOrigin parsers s = .ok origin → origin.host = some host → ¬['.', '.'] <:+ host →
        canonicalRemoteDomain parsers domain = .ok domain := by
  refine ⟨fun url domain host hparsed h hhost hdots => ?_,
    fun url url' domain host host' hparsed hparsed' h h' hhost hhost' => ?_,
    fun s domain origin host h horigin hhost hdots => ?_⟩
  · obtain ⟨u, hvalid, h⟩ := bind_eq_ok h
    obtain ⟨hscheme, -⟩ := validateRemoteUrl_spec hvalid
    obtain ⟨rfl, htrimmed, hagain⟩ :=
      canonicalRemoteDomain_again laws hparsed hscheme hhost hdots h
    have hport : url.port = some 443 → url.scheme = http := fun hport =>
      hscheme.resolve_right fun hhttps => (hparsed.port 443 hport).2 (by rw [hhttps]; rfl)
    rw [hagain, Except.ok.injEq]
    constructor
    · rintro heq ⟨-, hlost⟩
      exact filter_eq_self_iff.mp (domainText_inj htrimmed htrimmed heq).2 hlost
    · intro hkept
      rw [filter_eq_self_iff.mpr fun hlost => hkept ⟨hport hlost, hlost⟩]
  · obtain ⟨u, hvalid, h⟩ := bind_eq_ok h
    obtain ⟨u', hvalid', h'⟩ := bind_eq_ok h'
    obtain ⟨host₁, hhost₁, hne, rfl⟩ := domainFromOrigin_cases hparsed h
    obtain ⟨host₂, hhost₂, hne', heq⟩ := domainFromOrigin_cases hparsed' h'
    obtain rfl := Option.some.inj (hhost.symm.trans hhost₁)
    obtain rfl := Option.some.inj (hhost'.symm.trans hhost₂)
    obtain ⟨s, hs⟩ := hparsed.host (validateRemoteUrl_spec hvalid).1 host hhost
    obtain ⟨s', hs'⟩ := hparsed'.host (validateRemoteUrl_spec hvalid').1 host' hhost'
    obtain ⟨htrimmed, htext⟩ := trimHost_spec (laws.host_text s host hs) hne
    obtain ⟨htrimmed', htext'⟩ := trimHost_spec (laws.host_text s' host' hs') hne'
    obtain ⟨hsame, hport⟩ := domainText_inj htrimmed htrimmed' heq
    rw [← htext, ← htext', hsame]
    exact ⟨rfl, hport⟩
  · rw [canonicalRemoteDomain, horigin, ok_bind] at h
    obtain ⟨hparsed, hscheme⟩ := remoteOrigin_parsed laws horigin
    obtain ⟨rfl, -, hagain⟩ := canonicalRemoteDomain_again laws hparsed hscheme hhost hdots h
    rw [hagain, filter_eq_self_iff.mpr]
    exact fun hlost => (remoteOrigin_port laws horigin 443 hlost).2.2 rfl

end Stability

/-! ### Some hosts -/

def exampleHost : Text := "example.com".toList

/-- Read as a name because of its two dots, and without them as an IPv4 address. -/
def dottedHost : Text := "0x7f.1..".toList

def loopback : Text := "127.0.0.1".toList

/-- Reading some hosts and no others. -/
def someHosts : UrlParsers where
  host s :=
    if s = exampleHost then some exampleHost
    else if s = dottedHost then some dottedHost
    else if s = "0x7f.1".toList ∨ s = loopback then some loopback
    else none
  path s := s

theorem someHosts_cases {s host : Text} (h : someHosts.host s = some host) :
    host = exampleHost ∨ host = dottedHost ∨ host = loopback := by
  change (if s = exampleHost then some exampleHost else _) = some host at h
  split_ifs at h
  · exact .inl (Option.some.inj h).symm
  · exact .inr (.inl (Option.some.inj h).symm)
  · exact .inr (.inr (Option.some.inj h).symm)

theorem someHosts_laws : UrlLaws someHosts where
  host_text s host h := by
    rcases someHosts_cases h with rfl | rfl | rfl
    · exact .inr (by decide)
    · exact .inr (by decide)
    · exact .inr (by decide)
  host_host s host h := by
    rcases someHosts_cases h with rfl | rfl | rfl
    · decide
    · decide
    · decide
  host_dot s host h _ hdot := by
    exfalso
    have hlast (text : Text) (heq : host ++ ['.'] = text) : text.getLast? = some '.' := by
      rw [← heq, List.getLast?_concat]
    rcases someHosts_cases h with heq | heq | heq
    · exact absurd (hlast _ heq) (by decide)
    · refine hdot ⟨"0x7f.1".toList, ?_⟩
      have hdotted : dottedHost = ("0x7f.1".toList ++ ['.']) ++ ['.'] := by decide
      rw [hdotted] at heq
      exact (List.append_cancel_right heq).symm
    · exact absurd (hlast _ heq) (by decide)
  path_root := rfl
  path_onion rest h heq := by
    have hrest : rest = [] := List.append_cancel_right (heq.trans (List.nil_append _).symm)
    rw [hrest] at h
    exact absurd h (by decide)

def exampleUrl (port : ℕ) : Url := ⟨http, [], none, some exampleHost, some port, ['/'], none, none⟩

theorem exampleUrl_parsed {port : ℕ} (h : port < 65536 ∧ port ≠ 80) :
    (exampleUrl port).Parsed someHosts where
  host _ host hhost := ⟨exampleHost, by
    rw [← Option.some.inj hhost]
    decide⟩
  port p hp := by
    obtain rfl := Option.some.inj hp
    exact ⟨h.1, fun heq => h.2 (Option.some.inj heq)⟩

/-- `http://example.com:8080/`. -/
theorem canonical_domains_sample :
    canonicalRemoteDomain someHosts "example.com:8080".toList = .ok "example.com:8080".toList :=
  ((canonical_domains someHosts_laws).1 (exampleUrl 8080) _ exampleHost
    (exampleUrl_parsed (by decide)) (by decide) rfl (by decide)).mpr (by decide)

/-- The domain of `http://example.com:443/` is read without its port, and that of a name with two
    dots as an address. -/
theorem canonical_domains_unstable :
    ((exampleUrl 443).Parsed someHosts ∧
      canonicalRemoteDomainFromUrl (exampleUrl 443) = .ok "example.com:443".toList ∧
      canonicalRemoteDomain someHosts "example.com:443".toList = .ok "example.com".toList) ∧
    canonicalRemoteDomain someHosts "0x7f.1..:8080".toList = .ok "0x7f.1:8080".toList ∧
    canonicalRemoteDomain someHosts "0x7f.1:8080".toList = .ok "127.0.0.1:8080".toList :=
  ⟨⟨exampleUrl_parsed (by decide), by decide⟩, by decide⟩

end Rustodon.Remote
