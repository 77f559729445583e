import Rustodon.Moderation.DomainBlocks
import Rustodon.Remote.CanonicalDomain

/-! @src mastodon/policy.rs, mastodon/write_repository.rs | name:Coherence of the domain policy |
    scheme:labels | family:moderation

    A host that has been read from an origin is compared in three ways with the domains of rules: by
    the query, by the policy and by the names of locks. They agree on it; on text that is no origin
    they do not. -/

namespace Rustodon.Moderation
open Schemes.Utf8 Schemes.Checked Schemes.Like Schemes.Labels Schemes.Runs
open Remote

/-- An ASCII character that is no capital letter and no percent sign. -/
def isPlainAscii (c : Char) : Bool := decide (c.toNat < 128) && !c.isUpper && c != '%'

def IsPlain (s : Text) : Prop := ∀ c ∈ s, isPlainAscii c = true

/-- A label that the host parser takes for a number. -/
def isNumberLabel (label : Text) : Bool :=
  (!label.isEmpty && label.all Char.isDigit) ||
    (['0', 'x'].isPrefixOf label && (label.drop 2).all fun c =>
      c.isDigit || ('a'.toNat ≤ c.toNat && c.toNat ≤ 'f'.toNat))

/-- The last label of a name, which one dot may follow, is a number. -/
def endsInNumber (name : Text) : Bool :=
  let name := if name.getLast? = some '.' then name.dropLast else name
  (labels '.' name).getLast?.any isNumberLabel

/-- What the other libraries are documented to do with lower-case ASCII: a host is written in it, a
    name is read as itself, unless it ends in a number and is an IPv4 address, and an IPv6 address has
    two colons; converting it to ASCII changes nothing, and takes each label by itself; and lowering it
    changes nothing. -/
structure PolicyLaws (env : Env) : Prop extends UrlLaws env.parsers where
  host_plain : ∀ s host, env.parsers.host s = some host → IsPlain host
  host_name : ∀ s host, IsPlain s → endsInNumber s = false → env.parsers.host s = some host → host = s
  host_number : ∀ s host, IsPlain s → endsInNumber s = true → env.parsers.host s = some host →
    isIpv4 host = true
  ascii_plain : ∀ s ascii, IsPlain s → env.toAscii s = some ascii → ascii = s
  ascii_labels : ∀ s above, IsPlain s → LabelSuffix '.' above s → (env.toAscii s).isSome = true →
    (env.toAscii above).isSome = true
  lower_plain : ∀ s, IsPlain s → env.lower s = s
  host_colons : ∀ s address, env.parsers.host s = some ('[' :: (address ++ [']'])) →
    2 ≤ address.count ':'

variable {env : Env} {s host domain : Text}

theorem toLower_plain {c : Char} (h : isPlainAscii c = true) : c.toLower = c := by
  refine toLower_eq_self fun hupper => ?_
  simp [isPlainAscii, hupper] at h

theorem toAsciiLowercase_plain (h : IsPlain s) : toAsciiLowercase s = s := by
  rw [toAsciiLowercase]
  conv_rhs => rw [← List.map_id s]
  exact List.map_congr_left fun c hc => toLower_plain (h c hc)

theorem IsPlain.suffix {t : Text} (h : IsPlain s) (hsuffix : t <:+ s) : IsPlain t :=
  fun c hc => h c (hsuffix.subset hc)

/-! ### Hosts -/

/-- What is known of a host that has been read. -/
structure HostText (host : Text) : Prop where
  plain : IsPlain host
  clean : ∀ c ∈ host, isWhitespace c = false ∧ c ≠ '/'
  dots : ¬['.'] <:+ host
  kind : (2 ≤ host.count ':' ∧ ∀ c ∈ host, isAddressChar c = true) ∨ ∀ c ∈ host, isHostChar c = true

theorem canonicalRemoteHost_cases (h : canonicalRemoteHost env.parsers domain = .ok host) :
    ∃ text read, env.parsers.host text = some read ∧ host = trimHost read ∧
      ((∀ c ∈ trimDots domain, isHostChar c = true) → trimDots domain ≠ [] → text = trimDots domain) := by
  obtain ⟨origin, horigin, h⟩ := bind_eq_ok h
  obtain ⟨hparse, -⟩ := remoteOrigin_cases horigin
  obtain ⟨text, after, read, port, path, htake, hread, -, rfl⟩ := parseOrigin_cases hparse
  refine ⟨text, read, hread, (Except.ok.inj h).symm, fun hchars hne => ?_⟩
  have hdrop : (trimDots domain ++ ['/']).dropWhile isSlash = trimDots domain ++ ['/'] := by
    obtain ⟨c, rest, heq⟩ := List.exists_cons_of_ne_nil hne
    rw [heq, List.cons_append]
    refine List.dropWhile_cons_of_neg ?_
    obtain ⟨-, -, hslash, -⟩ := isHostChar_spec (hchars c (heq ▸ List.mem_cons_self))
    simp [hslash]
  have hplain := takeHost_plain hchars ⟨'/', [], rfl, .inr (by decide)⟩
  rw [hdrop, hplain] at htake
  exact (Prod.mk.inj htake).1.symm

theorem trimHost_sublist (s : Text) : (trimHost s).Sublist s := by
  rw [trimHost, trimDots]
  exact (List.rdropWhile_prefix _ _).sublist.trans
    ((List.rdropWhile_prefix _ _).sublist.trans (List.dropWhile_suffix _).sublist)

theorem hostText_of_read (laws : PolicyLaws env) {text read : Text}
    (h : env.parsers.host text = some read) : HostText (trimHost read) := by
  have hplain : IsPlain (trimHost read) := fun c hc =>
    laws.host_plain text read h c ((trimHost_sublist read).subset hc)
  have hdots : ¬['.'] <:+ trimHost read := not_dot_trimDots _
  rcases laws.host_text text read h with ⟨address, rfl, hcolon, hchars⟩ | ⟨-, hchars⟩
  · rw [trimHost_bracketed hchars hcolon] at hplain hdots ⊢
    refine ⟨hplain, fun c hc => ?_, hdots, .inl ⟨laws.host_colons text address h, hchars⟩⟩
    obtain ⟨hwhite, -, hslash, -⟩ := isAddressChar_spec (hchars c hc)
    refine ⟨hwhite, ?_⟩
    rintro rfl
    exact absurd hslash (by decide)
  · have htrimmed : ∀ c ∈ trimHost read, isHostChar c = true := fun c hc =>
      hchars c ((trimHost_sublist read).subset hc)
    refine ⟨hplain, fun c hc => ?_, hdots, .inr htrimmed⟩
    obtain ⟨hwhite, -, hslash, -⟩ := isHostChar_spec (htrimmed c hc)
    refine ⟨hwhite, ?_⟩
    rintro rfl
    exact absurd hslash (by decide)

theorem hostText_of_canonical (laws : PolicyLaws env)
    (h : canonicalRemoteHost env.parsers domain = .ok host) : HostText host := by
  obtain ⟨text, read, hread, rfl, -⟩ := canonicalRemoteHost_cases h
  exact hostText_of_read laws hread

theorem domainPolicyHostname_of_canonical (h : canonicalRemoteHost env.parsers domain = .ok host) :
    domainPolicyHostname env domain = host := by
  rw [domainPolicyHostname, h]

theorem trim_clean (h : ∀ c ∈ s, isWhitespace c = false) : trim s = s := by
  have hstart : ∀ {t : Text}, (∀ c ∈ t, isWhitespace c = false) → trimStart t = t := by
    intro t ht
    cases t with
    | nil => rfl
    | cons c t =>
      refine List.dropWhile_cons_of_neg ?_
      simp [ht c List.mem_cons_self]
  rw [trim, hstart h, hstart fun c hc => h c (List.mem_reverse.mp hc), List.reverse_reverse]

theorem byteLen_plain (h : IsPlain s) : byteLen s = s.length := by
  induction s with
  | nil => rfl
  | cons c s ih =>
    have hc := h c List.mem_cons_self
    simp only [isPlainAscii, Bool.and_eq_true, decide_eq_true_eq] at hc
    have hsize : c.utf8Size = 1 := Char.utf8Size_eq_one_iff.mpr (UInt32.le_iff_toNat_le.mpr (by
      have hlt : c.val.toNat < 128 := hc.1.1
      exact Nat.le_of_lt_succ hlt))
    rw [byteLen_cons, hsize, ih fun d hd => h d (List.mem_cons_of_mem _ hd), List.length_cons,
      Nat.add_comm]

/-- Labels that are not empty leave no dot at either end. -/
theorem ends_of_labels (h : [] ∉ labels '.' host) :
    host ≠ [] ∧ host.head? ≠ some '.' ∧ host.getLast? ≠ some '.' := by
  refine ⟨?_, fun hhead => ?_, fun hlast => ?_⟩
  · rintro rfl
    exact h (by decide)
  · obtain ⟨rest, rfl⟩ := List.head?_eq_some_iff.mp hhead
    have hsplit : labels '.' ([] ++ '.' :: rest) = labels '.' [] ++ labels '.' rest :=
      List.splitOn_append_cons_self [] rest
    rw [List.nil_append] at hsplit
    rw [hsplit] at h
    exact h (List.mem_append_left _ (by decide))
  · obtain ⟨init, rfl⟩ := List.getLast?_eq_some_iff.mp hlast
    have hsplit : labels '.' (init ++ '.' :: []) = labels '.' init ++ labels '.' [] :=
      List.splitOn_append_cons_self init []
    rw [hsplit] at h
    exact h (List.mem_append_right _ (by decide))

/-- A host is normalized to itself, or it is no domain that rules apply to. -/
theorem normalizePolicyDomain_eq (laws : PolicyLaws env) (h : HostText host) :
    normalizePolicyDomain env host =
      if (env.toAscii host).isSome = true ∧ (labels '.' host).all isPolicyLabel = true then some host
      else none := by
  have htrim : trimDots ((trim host).filter fun c => c != '/') = host := by
    rw [trim_clean fun c hc => (h.clean c hc).1]
    have hslash : host.filter (fun c => c != '/') = host :=
      List.filter_eq_self.mpr fun c hc => bne_iff_ne.mpr (h.clean c hc).2
    rw [hslash, trimDots_eq_self h.dots]
  have hwhite : host.any isWhitespace = false := List.any_eq_false.mpr fun c hc => by
    simp [(h.clean c hc).1]
  rw [normalizePolicyDomain]
  simp only [htrim, hwhite, Bool.false_eq_true, or_false]
  cases hascii : env.toAscii host with
  | none =>
    rw [if_neg (c := _ ∧ _) (by simp)]
    split <;> rfl
  | some ascii =>
    obtain rfl := laws.ascii_plain host ascii h.plain hascii
    by_cases hlabels : (labels '.' ascii).all isPolicyLabel = true
    · obtain ⟨hne, hhead, hlast⟩ := ends_of_labels fun hmem =>
        absurd (List.all_eq_true.mp hlabels [] hmem) (by decide)
      simp [hlabels, hne, hhead, hlast]
    · have hno : ¬(labels '.' ascii).all isPolicyLabel = true := hlabels
      rw [Bool.not_eq_true] at hno
      simp [-List.all_eq_true, -List.all_eq_false, hno]

/-! ### Rules -/

/-- What is known of the domain of a rule. -/
structure RuleDomain (domain : Text) : Prop extends HostText domain where
  colon : ':' ∉ domain
  labelChars : ∀ label ∈ labels '.' domain, ∀ c ∈ label, isLabelChar c = true

theorem normalizeDomainBlockDomain_ok {input : Text}
    (h : normalizeDomainBlockDomain env input = .ok domain) :
    (∃ text, canonicalRemoteDomain env.parsers text = .ok domain) ∧ ':' ∉ domain ∧
      ∀ label ∈ labels '.' domain, label.all isLabelChar = true := by
  rw [normalizeDomainBlockDomain] at h
  split at h
  · cases h
  split at h
  · cases h
  · rename_i canonical hcanonical
    split at h
    · cases h
    rename_i hcolon
    split at h
    · cases h
    rename_i hlabels
    obtain rfl := Except.ok.inj h
    refine ⟨⟨_, hcanonical⟩, hcolon, fun label hlabel => ?_⟩
    by_contra hnot
    refine hlabels (.inr (List.any_eq_true.mpr ⟨label, hlabel, ?_⟩))
    rw [Bool.not_eq_true] at hnot
    rw [hnot, Bool.not_false, Bool.or_true]

theorem ruleDomain_of_normalize (laws : PolicyLaws env) {input : Text}
    (h : normalizeDomainBlockDomain env input = .ok domain) : RuleDomain domain := by
  obtain ⟨⟨text, hcanonical⟩, hcolon, hlabels⟩ := normalizeDomainBlockDomain_ok h
  obtain ⟨origin, horigin, hdomain⟩ := bind_eq_ok hcanonical
  obtain ⟨hparsed, hscheme⟩ := remoteOrigin_parsed laws.toUrlLaws horigin
  obtain ⟨host, hhost, -, rfl⟩ := domainFromOrigin_cases hparsed hdomain
  obtain ⟨s, hread⟩ := hparsed.host hscheme host hhost
  have hport : origin.port = none := by
    cases hport : origin.port with
    | none => rfl
    | some port =>
      rw [hport, domainText_eq, portText] at hcolon
      exact absurd (by simp) hcolon
  rw [hport, domainText_eq, portText, List.append_nil] at hcolon hlabels ⊢
  have hplain : hostText (trimHost host) = trimHost host := by
    rw [hostText]
    split
    · rename_i hmem
      rw [hostText, if_pos hmem] at hcolon
      exact absurd (by simp [hmem]) hcolon
    · rfl
  rw [hplain] at hcolon hlabels ⊢
  exact ⟨hostText_of_read laws hread, hcolon, fun label hlabel =>
    List.all_eq_true.mp (hlabels label hlabel)⟩

theorem isPlain_labelChar {c : Char} (h : isLabelChar c = true) : isPlain c = true := by
  refine decide_eq_true ⟨?_, ?_, ?_⟩
  · rintro rfl
    exact absurd h (by decide)
  · rintro rfl
    exact absurd h (by decide)
  · rintro rfl
    exact absurd h (by decide)

theorem RuleDomain.chars (h : RuleDomain domain) {c : Char} (hc : c ∈ domain) :
    isPlain c = true := by
  have hsplit : c = '.' ∨ ∃ label ∈ labels '.' domain, c ∈ label := mem_of_labels hc
  rcases hsplit with rfl | ⟨label, hlabel, hc⟩
  · decide
  · exact isPlain_labelChar (h.labelChars label hlabel c hc)

/-- The query returns the rules on the host and on the domains above it. -/
theorem prefilter_iff (laws : PolicyLaws env) {block : DomainBlock} (hhost : HostText host)
    (hrule : RuleDomain block.domain) :
    prefilter env host block = true ↔ LabelSuffix '.' block.domain host := by
  have hpattern : ∀ c ∈ '.' :: block.domain, isPlain c = true := by
    intro c hc
    rcases List.mem_cons.mp hc with rfl | hc
    · decide
    · exact hrule.chars hc
  rw [prefilter, trimDots_eq_self hhost.dots, laws.lower_plain host hhost.plain,
    laws.lower_plain block.domain hrule.plain, underDomain, Bool.or_eq_true, like_percent hpattern,
    decide_eq_true_eq, LabelSuffix, eq_comm]

theorem ruleMatches_iff {rule : Text} : ruleMatches host rule = true ↔ LabelSuffix '.' rule host := by
  rw [ruleMatches, Bool.or_eq_true, decide_eq_true_eq, Bool.and_eq_true, List.isSuffixOf_iff_suffix,
    beq_iff_eq, LabelSuffix, eq_comm]
  refine or_congr_right ⟨?_, ?_⟩
  · rintro ⟨⟨init, rfl⟩, hlast⟩
    rw [List.length_append, Nat.add_sub_cancel, List.take_left] at hlast
    obtain ⟨before, rfl⟩ := List.getLast?_eq_some_iff.mp hlast
    exact ⟨before, by simp⟩
  · rintro ⟨init, rfl⟩
    refine ⟨⟨init ++ ['.'], by simp⟩, ?_⟩
    have htake : (init ++ '.' :: rule).take ((init ++ '.' :: rule).length - rule.length) =
        init ++ ['.'] := by
      rw [List.append_cons, List.length_append, Nat.add_sub_cancel, List.take_left]
    rw [htake, List.getLast?_concat]

/-! ### The decision -/

/-- The rule that decides for a host is the longest one on the host or above it. -/
def Decides (rules : List GlobalDomainRule) (host : Text) : GlobalDomainPolicy → Prop
  | .allowed => ∀ rule ∈ rules, ¬LabelSuffix '.' rule.domain host
  | .matched rule => (rule ∈ rules ∧ LabelSuffix '.' rule.domain host) ∧
      ∀ other ∈ rules, LabelSuffix '.' other.domain host → other.domain.length ≤ rule.domain.length
  | .invalidDomain => False

theorem Decides.congr {rules rules' : List GlobalDomainRule} {policy : GlobalDomainPolicy}
    (hmem : ∀ rule, LabelSuffix '.' rule.domain host → (rule ∈ rules ↔ rule ∈ rules'))
    (h : Decides rules host policy) : Decides rules' host policy := by
  cases policy with
  | allowed => exact fun rule hrule hsuffix => h rule ((hmem rule hsuffix).mpr hrule) hsuffix
  | matched rule =>
    exact ⟨⟨(hmem rule h.1.2).mp h.1.1, h.1.2⟩, fun other hother hsuffix =>
      h.2 other ((hmem other hsuffix).mpr hother) hsuffix⟩
  | invalidDomain => exact h

/-- Rules whose domains differ decide in one way. -/
theorem Decides.unique {rules : List GlobalDomainRule} {policy policy' : GlobalDomainPolicy}
    (hinj : ∀ rule ∈ rules, ∀ other ∈ rules, rule.domain = other.domain → rule = other)
    (h : Decides rules host policy) (h' : Decides rules host policy') : policy = policy' := by
  cases policy with
  | allowed =>
    cases policy' with
    | allowed => rfl
    | matched rule => exact absurd h'.1.2 (h rule h'.1.1)
    | invalidDomain => exact h'.elim
  | matched rule =>
    cases policy' with
    | allowed => exact absurd h.1.2 (h' rule h.1.1)
    | matched other =>
      have hlength : rule.domain.length = other.domain.length :=
        Nat.le_antisymm (h'.2 rule h.1.1 h.1.2) (h.2 other h'.1.1 h'.1.2)
      have hdomain := LabelSuffix.eq_of_length h.1.2 h'.1.2 hlength
      rw [hinj rule h.1.1 other h'.1.1 hdomain]
    | invalidDomain => exact h'.elim
  | invalidDomain => exact h.elim

/-- Of the rules, those that match are on the host or above it; each has its own domain. -/
theorem mem_matchingRules (laws : PolicyLaws env) {rules : List GlobalDomainRule}
    (hrules : ∀ rule ∈ rules, RuleDomain rule.domain) (hhost : HostText host)
    (hvalid : normalizePolicyDomain env host = some host) {entry : GlobalDomainRule × Text} :
    entry ∈ matchingRules env host rules ↔
      entry.1 ∈ rules ∧ entry.2 = entry.1.domain ∧ LabelSuffix '.' entry.1.domain host := by
  rw [matchingRules, List.mem_filter, List.mem_filterMap, ruleMatches_iff]
  constructor
  · rintro ⟨⟨rule, hrule, hentry⟩, hsuffix⟩
    obtain ⟨normalized, hnormalized, rfl⟩ := Option.map_eq_some_iff.mp hentry
    rw [normalizePolicyDomain_eq laws (hrules rule hrule).toHostText] at hnormalized
    split at hnormalized
    · obtain rfl := Option.some.inj hnormalized
      exact ⟨hrule, rfl, hsuffix⟩
    · cases hnormalized
  · rintro ⟨hrule, hdomain, hsuffix⟩
    rw [normalizePolicyDomain_eq laws hhost] at hvalid
    split at hvalid
    · rename_i hlabels
      have hascii : (env.toAscii entry.1.domain).isSome = true :=
        laws.ascii_labels host entry.1.domain hhost.plain hsuffix hlabels.1
      have hall : (labels '.' entry.1.domain).all isPolicyLabel = true :=
        List.all_eq_true.mpr fun label hlabel =>
          List.all_eq_true.mp hlabels.2 label (labels_subset hsuffix hlabel)
      refine ⟨⟨entry.1, hrule, ?_⟩, hdomain ▸ hsuffix⟩
      rw [normalizePolicyDomain_eq laws (hrules entry.1 hrule).toHostText, if_pos ⟨hascii, hall⟩,
        Option.map_some, ← hdomain]
    · cases hvalid

/-- `global_domain_policy` on a host. -/
theorem globalDomainPolicy_spec (laws : PolicyLaws env) {rules : List GlobalDomainRule}
    (hrules : ∀ rule ∈ rules, RuleDomain rule.domain) (hhost : HostText host) :
    (normalizePolicyDomain env host = none ∧ globalDomainPolicy env host rules = .invalidDomain) ∨
      (normalizePolicyDomain env host = some host ∧
        Decides rules host (globalDomainPolicy env host rules)) := by
  cases hnormalized : normalizePolicyDomain env host with
  | none =>
    refine .inl ⟨rfl, ?_⟩
    rw [globalDomainPolicy, hnormalized]
  | some normalized =>
    have hsame := hnormalized
    rw [normalizePolicyDomain_eq laws hhost] at hsame
    split at hsame
    · obtain rfl := Option.some.inj hsame
      refine .inr ⟨rfl, ?_⟩
      have hmem (rule : GlobalDomainRule) (hrule : rule ∈ rules)
          (hsuffix : LabelSuffix '.' rule.domain host) :
          (rule, rule.domain) ∈ matchingRules env host rules :=
        (mem_matchingRules laws hrules hhost hnormalized).mpr ⟨hrule, rfl, hsuffix⟩
      rw [globalDomainPolicy, hnormalized]
      dsimp only
      split
      · rename_i hnone
        rw [List.argmax_eq_none, List.reverse_eq_nil_iff] at hnone
        intro rule hrule hsuffix
        have hentry := hmem rule hrule hsuffix
        rw [hnone] at hentry
        cases hentry
      · rename_i rule domain hmax
        have hentry := List.mem_reverse.mp (List.argmax_mem hmax)
        obtain ⟨hrule, hdomain, hsuffix⟩ :=
          (mem_matchingRules laws hrules hhost hnormalized).mp hentry
        refine ⟨⟨hrule, hsuffix⟩, fun other hother hother' => ?_⟩
        have hle := List.le_of_mem_argmax (List.mem_reverse.mpr (hmem other hother hother')) hmax
        dsimp only at hle hdomain
        rw [hdomain, byteLen_plain (hrules other hother).plain,
          byteLen_plain (hrules rule hrule).plain] at hle
        exact hle
    · cases hsame

end Rustodon.Moderation
