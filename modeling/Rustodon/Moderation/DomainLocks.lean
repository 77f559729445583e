import Mathlib.Data.List.Dedup
import Rustodon.Moderation.PolicyCoherence

/-! @src mastodon/write_repository.rs, mastodon/write_repository/purge.rs | name:Locks of domains |
    scheme:labels | family:moderation

    A write for a host takes the locks of the host and of the domains above it, and moderation takes
    that of the rule. The locks have their order from the sorted scopes. On a host that has been read
    from an origin the query, the policy and the locks agree; on text that is no origin they do not. -/

namespace Rustodon.Moderation
open Schemes.Utf8 Schemes.Checked Schemes.Labels Schemes.Runs
open Remote

variable {env : Env} {host domain scope : Text}

/-! ### Sorting -/

theorem mem_sorted {scopes : List Text} : scope ∈ sorted scopes ↔ scope ∈ scopes := by
  rw [sorted, List.mem_mergeSort, List.mem_dedup]

theorem sorted_pairwise (scopes : List Text) : (sorted scopes).Pairwise (· < ·) := by
  have hle : (sorted scopes).Pairwise (· ≤ ·) := by
    have hsorted : (sorted scopes).Pairwise fun a b => decide (a ≤ b) = true := by
      refine List.pairwise_mergeSort (fun a b c hab hbc => ?_) (fun a b => ?_) scopes.dedup
      · exact decide_eq_true (le_trans (of_decide_eq_true hab) (of_decide_eq_true hbc))
      · simpa using le_total a b
    exact hsorted.imp fun h => of_decide_eq_true h
  have hne : (sorted scopes).Pairwise (· ≠ ·) :=
    (List.mergeSort_perm _ _).nodup_iff.mpr (List.nodup_dedup scopes)
  exact (hle.and hne).imp fun h => lt_of_le_of_ne h.1 h.2

/-! ### Hosts that are addresses -/

theorem HostText.colon_of_address (h : HostText host) (hchars : ¬∀ c ∈ host, isHostChar c = true) :
    ':' ∈ host := by
  rcases h.kind with ⟨hcount, -⟩ | hplain
  · exact List.count_pos_iff.mp (by omega)
  · exact absurd hplain hchars

theorem HostText.chars_of_colon (h : HostText host) (hcolon : ':' ∉ host) :
    ∀ c ∈ host, isHostChar c = true := by
  by_contra hchars
  exact hcolon (h.colon_of_address hchars)

theorem isIpv4_spec (h : isIpv4 host = true) :
    (labels '.' host).length = 4 ∧ ∀ label ∈ labels '.' host, label ≠ [] ∧ label.all Char.isDigit = true := by
  rw [isIpv4, Bool.and_eq_true, decide_eq_true_eq, List.all_eq_true] at h
  refine ⟨h.1, fun label hlabel => ?_⟩
  have hpart := h.2 label hlabel
  simp only [Bool.and_eq_true, Bool.not_eq_true', List.isEmpty_eq_false_iff] at hpart
  exact ⟨hpart.1.1.1, hpart.1.1.2⟩

theorem isIpv4_chars (h : isIpv4 host = true) : ∀ c ∈ host, c = '.' ∨ c.isDigit = true := by
  intro c hc
  have hsplit : c = '.' ∨ ∃ label ∈ labels '.' host, c ∈ label := mem_of_labels hc
  rcases hsplit with rfl | ⟨label, hlabel, hc⟩
  · exact .inl rfl
  · exact .inr (List.all_eq_true.mp ((isIpv4_spec h).2 label hlabel).2 c hc)

/-- An IPv4 address is trimmed. -/
theorem trimHost_ipv4 (h : isIpv4 host = true) : trimHost host = host := by
  have hchars : ∀ c ∈ host, isHostChar c = true := by
    intro c hc
    rcases isIpv4_chars h c hc with rfl | hdigit
    · decide
    · have haddress : isAddressChar c = true := by rw [isAddressChar, hdigit]; rfl
      obtain ⟨hwhite, hexcluded, hslash, hopen, hclose⟩ := isAddressChar_spec haddress
      have hcolon : c ≠ ':' := by
        rintro rfl
        exact absurd hdigit (by decide)
      simp [isHostChar, hwhite, hexcluded, hslash, hopen, hclose, hcolon]
  have hlast := (ends_of_labels fun hmem => ((isIpv4_spec h).2 [] hmem).1 rfl).2.2
  rw [trimHost_plain hchars]
  refine trimDots_eq_self fun hdot => hlast ?_
  obtain ⟨init, hinit⟩ := hdot
  rw [← hinit, List.getLast?_concat]

/-- What follows the dots of an address would be read as a number. -/
theorem endsInNumber_above {above : Text} (h : isIpv4 host = true) (hsuffix : LabelSuffix '.' above host) :
    endsInNumber above = true := by
  have hlabels : ∀ label ∈ labels '.' above, label ≠ [] ∧ label.all Char.isDigit = true :=
    fun label hlabel => (isIpv4_spec h).2 label (labels_subset hsuffix hlabel)
  have hlast := (ends_of_labels fun hmem => (hlabels [] hmem).1 rfl).2.2
  rw [endsInNumber, if_neg hlast]
  have hne : labels '.' above ≠ [] := List.splitOn_ne_nil '.' above
  obtain ⟨hlabel, hdigits⟩ := hlabels _ (List.getLast_mem hne)
  rw [List.getLast?_eq_some_getLast hne, Option.any_some, isNumberLabel, hdigits]
  simp [hlabel]

/-- Names that end in the same label. -/
theorem endsInNumber_eq {above : Text} (hsuffix : LabelSuffix '.' above host) (hdots : ¬['.'] <:+ host) :
    endsInNumber above = endsInNumber host := by
  have hlast {s : Text} (hs : ¬['.'] <:+ s) : s.getLast? ≠ some '.' := fun heq => by
    obtain ⟨init, rfl⟩ := List.getLast?_eq_some_iff.mp heq
    exact hs ⟨init, rfl⟩
  have habove : ¬['.'] <:+ above := fun hdot => hdots (hdot.trans hsuffix.suffix)
  rw [endsInNumber, endsInNumber, if_neg (hlast habove), if_neg (hlast hdots)]
  rcases hsuffix with rfl | ⟨init, rfl⟩
  · rfl
  · have hsplit : labels '.' (init ++ '.' :: above) = labels '.' init ++ labels '.' above :=
      List.splitOn_append_cons_self init above
    have hne : labels '.' above ≠ [] := List.splitOn_ne_nil '.' above
    rw [hsplit, List.getLast?_append, List.getLast?_eq_some_getLast hne, Option.some_or]

/-- The text of an IPv6 address is no origin. -/
theorem canonicalRemoteHost_address (hcount : 2 ≤ host.count ':')
    (hchars : ∀ c ∈ host, isAddressChar c = true) (read : Text) :
    canonicalRemoteHost env.parsers host ≠ .ok read := by
  intro h
  obtain ⟨before, after, rfl, hbefore⟩ :=
    List.eq_append_cons_of_mem (List.count_pos_iff.mp (Nat.lt_of_lt_of_le Nat.zero_lt_two hcount))
  have hafter : ':' ∈ after := by
    rw [List.count_append, List.count_eq_zero.mpr hbefore, List.count_cons_self] at hcount
    exact List.count_pos_iff.mp (by omega)
  have hdots : trimDots (before ++ ':' :: after) = before ++ ':' :: after :=
    trimDots_eq_self fun hdot => absurd (hchars '.' (hdot.subset List.mem_cons_self)) (by decide)
  have hslash : ∀ c ∈ before ++ ':' :: after, isSlash c = false :=
    fun c hc => (isAddressChar_spec (hchars c hc)).2.2.1
  obtain ⟨origin, horigin, -⟩ := bind_eq_ok h
  obtain ⟨hparse, -⟩ := remoteOrigin_cases horigin
  rw [hdots] at hparse
  obtain ⟨text, rest, -, port, path, htake, -, hport, -⟩ := parseOrigin_cases hparse
  have hdrop : ((before ++ ':' :: after) ++ ['/']).dropWhile isSlash =
      before ++ (':' :: after ++ ['/']) := by
    rw [List.append_assoc]
    cases before with
    | nil => rfl
    | cons c before =>
      refine List.dropWhile_cons_of_neg ?_
      simp [hslash c (by simp)]
  have hplain : ∀ c ∈ before, isHostChar c = true := by
    intro c hc
    obtain ⟨hwhite, hexcluded, hslash, hopen, hclose⟩ := isAddressChar_spec (hchars c (by simp [hc]))
    have hcolon : c ≠ ':' := fun heq => hbefore (heq ▸ hc)
    simp [isHostChar, hwhite, hexcluded, hslash, hopen, hclose, hcolon]
  have hplain := takeHost_plain hplain
    (⟨':', after ++ ['/'], rfl, .inl rfl⟩ : EndsHost (':' :: after ++ ['/']))
  rw [hdrop, hplain] at htake
  obtain ⟨rfl, rfl⟩ := Prod.mk.inj htake
  -- Behind the digits of the port there is a colon or a letter.
  have hdigits : after.dropWhile Char.isDigit ≠ [] := fun hnil =>
    absurd (List.dropWhile_eq_nil_iff.mp hnil ':' hafter) (by decide)
  obtain ⟨c, left, hleft⟩ := List.exists_cons_of_ne_nil hdigits
  have hc : isSlash c = false :=
    hslash c (List.mem_append_right _ (List.mem_cons_of_mem _
      ((List.dropWhile_suffix _).subset (hleft ▸ List.mem_cons_self))))
  have hbehind : (after ++ ['/']).dropWhile Char.isDigit = c :: (left ++ ['/']) := by
    rw [List.dropWhile_append, hleft]
    rfl
  rw [parsePort, List.cons_append, if_pos List.head?_cons] at hport
  simp only [List.tail_cons, hbehind, List.head?_cons, Option.all_some, hc, Bool.false_eq_true,
    false_and, if_false] at hport
  cases hport

/-! ### Scopes -/

/-- The scopes of a host. -/
theorem remoteDomainLockScopes_eq (hread : canonicalRemoteHost env.parsers domain = .ok host)
    (hhost : HostText host) :
    remoteDomainLockScopes env domain =
      if isAddress host = true then [host] else sorted (labelSuffixes '.' host) := by
  rw [remoteDomainLockScopes, domainPolicyHostname_of_canonical hread]
  simp only [toAsciiLowercase_plain hhost.plain]

/-- The host is read from its own text as itself, or it is no origin but has the colons of an IPv6
    address. -/
def ReadsAgain (env : Env) (host : Text) : Prop :=
  canonicalRemoteHost env.parsers host = .ok host ∨ ':' ∈ host

theorem HostText.hostname_colon (hhost : HostText host) (hcolon : ':' ∈ host) :
    domainPolicyHostname env host = host := by
  rw [domainPolicyHostname]
  split
  · rename_i read hread
    rcases hhost.kind with ⟨hcount, hchars⟩ | hplain
    · exact absurd hread (canonicalRemoteHost_address hcount hchars read)
    · exact absurd hcolon (colon_not_mem hplain)
  · exact trimDots_eq_self hhost.dots

theorem canonicalRemoteHost_nil (read : Text) : canonicalRemoteHost env.parsers [] ≠ .ok read := by
  intro h
  obtain ⟨origin, horigin, -⟩ := bind_eq_ok h
  rw [remoteOrigin] at horigin
  cases horigin

/-- A host without colons that is read again is no number, or it is an IPv4 address. -/
theorem endsInNumber_of_readsAgain (laws : PolicyLaws env) (hhost : HostText host)
    (hread : canonicalRemoteHost env.parsers host = .ok host) (hchars : ∀ c ∈ host, isHostChar c = true)
    (hnumber : endsInNumber host = true) : isIpv4 host = true := by
  have htrim := trimDots_eq_self hhost.dots
  have hne : host ≠ [] := by
    rintro rfl
    exact canonicalRemoteHost_nil _ hread
  obtain ⟨text, read, htext, hsame, heq⟩ := canonicalRemoteHost_cases hread
  rw [htrim] at heq
  obtain rfl := heq hchars hne
  have hipv4 := laws.host_number text read hhost.plain hnumber htext
  rw [trimHost_ipv4 hipv4] at hsame
  rw [hsame]
  exact hipv4

/-- A scope of such a host is its own name. -/
theorem domainPolicyHostname_scope (laws : PolicyLaws env) (hhost : HostText host)
    (hagain : ReadsAgain env host)
    (hscope : scope ∈ if isAddress host = true then [host] else sorted (labelSuffixes '.' host)) :
    domainPolicyHostname env scope = scope ∧ IsPlain scope := by
  split at hscope
  · obtain rfl := List.mem_singleton.mp hscope
    refine ⟨?_, hhost.plain⟩
    rcases hagain with hread | hcolon
    · exact domainPolicyHostname_of_canonical hread
    · exact hhost.hostname_colon hcolon
  · rename_i haddress
    rw [isAddress, Bool.or_eq_true, decide_eq_true_eq, not_or] at haddress
    obtain ⟨hipv4, hcolon⟩ := haddress
    have hread := hagain.resolve_right hcolon
    have hchars := hhost.chars_of_colon hcolon
    have hsuffix : LabelSuffix '.' scope host := mem_labelSuffixes.mp (mem_sorted.mp hscope)
    have hnumber : endsInNumber host = false := by
      rw [← Bool.not_eq_true]
      exact fun hnumber => hipv4 (endsInNumber_of_readsAgain laws hhost hread hchars hnumber)
    have hdots : ¬['.'] <:+ scope := fun hdot => hhost.dots (hdot.trans hsuffix.suffix)
    have htrim := trimDots_eq_self hdots
    have hplain : IsPlain scope := hhost.plain.suffix hsuffix.suffix
    have hscopeChars : ∀ c ∈ scope, isHostChar c = true := fun c hc => hchars c (hsuffix.mem hc)
    refine ⟨?_, hplain⟩
    rw [domainPolicyHostname]
    split
    · rename_i canonical hcanonical
      have hne : scope ≠ [] := by
        rintro rfl
        exact canonicalRemoteHost_nil _ hcanonical
      obtain ⟨text, read, htext, rfl, heq⟩ := canonicalRemoteHost_cases hcanonical
      rw [htrim] at heq
      rw [heq hscopeChars hne] at htext
      rw [← endsInNumber_eq hsuffix hhost.dots] at hnumber
      rw [laws.host_name scope read hplain hnumber htext, trimHost_plain hscopeChars, htrim]
    · exact htrim

/-- The locks of some domains are taken in the order of their names. -/
theorem remoteDomainLocks_pairwise (laws : PolicyLaws env) {domains : List Text}
    (hdomains : ∀ domain ∈ domains, ∃ host,
      canonicalRemoteHost env.parsers domain = .ok host ∧ ReadsAgain env host) :
    (remoteDomainLocks env domains).Pairwise (· < ·) := by
  have hname : ∀ scope ∈ sorted (domains.flatMap (remoteDomainLockScopes env)),
      domainLockName env scope = lockPrefix ++ scope := by
    intro scope hscope
    obtain ⟨domain, hdomain, hscope⟩ := List.mem_flatMap.mp (mem_sorted.mp hscope)
    obtain ⟨host, hread, hagain⟩ := hdomains domain hdomain
    have hhost := hostText_of_canonical laws hread
    rw [remoteDomainLockScopes_eq hread hhost] at hscope
    obtain ⟨hname, hplain⟩ := domainPolicyHostname_scope laws hhost hagain hscope
    rw [domainLockName, hname, toAsciiLowercase_plain hplain]
  rw [remoteDomainLocks, List.map_congr_left hname, List.pairwise_map]
  exact (sorted_pairwise _).imp fun h => List.Lex.append_left _ h _

/-- The domain of a rule, read as a host. -/
theorem RuleDomain.read (laws : PolicyLaws env) (hrule : RuleDomain domain)
    (hcanonical : canonicalRemoteDomain env.parsers domain = .ok domain) :
    ∃ read, env.parsers.host domain = some read ∧ domain = trimHost read := by
  have hchars := hrule.toHostText.chars_of_colon hrule.colon
  obtain ⟨origin, horigin, hdomain⟩ := bind_eq_ok hcanonical
  obtain ⟨host, hhost, hdomain⟩ := bind_eq_ok hdomain
  have hread : canonicalRemoteHost env.parsers domain = .ok host := by
    rw [canonicalRemoteHost, horigin]
    exact hhost
  have htext : HostText host := hostText_of_canonical laws hread
  split at hdomain
  · cases hdomain
  rename_i hne
  have hplain := hrule.colon
  rw [← Except.ok.inj hdomain] at hplain
  have hsame : domain = host := by
    rw [← Except.ok.inj hdomain]
    rw [domainText_eq] at hplain ⊢
    have hport : ':' ∉ portText (origin.port.filter fun port =>
        decide (some port ≠ defaultPort origin.scheme)) := fun hmem =>
      hplain (List.mem_append_right _ hmem)
    have hcolon : ':' ∉ hostText host := fun hmem => hplain (List.mem_append_left _ hmem)
    have hnone : portText (origin.port.filter fun port =>
        decide (some port ≠ defaultPort origin.scheme)) = [] := by
      cases hfilter : origin.port.filter fun port => decide (some port ≠ defaultPort origin.scheme) with
      | none => rfl
      | some port =>
        rw [hfilter] at hport
        exact absurd List.mem_cons_self hport
    rw [hnone, List.append_nil]
    by_cases hmem : ':' ∈ host
    · rw [hostText, if_pos hmem] at hcolon
      exact absurd (by simp [hmem]) hcolon
    · rw [hostText, if_neg hmem]
  obtain ⟨text, read, hparse, htrim, heq⟩ := canonicalRemoteHost_cases hread
  have hdomainNe : domain ≠ [] := hsame ▸ hne
  rw [trimDots_eq_self hrule.dots] at heq
  rw [heq hchars hdomainNe] at hparse
  exact ⟨read, hparse, hsame.trans htrim⟩

/-- The lock that moderation takes for a rule that matches a host. -/
theorem domainLockName_mem (laws : PolicyLaws env) {rule : Text}
    (hread : canonicalRemoteHost env.parsers domain = .ok host) (hrule : RuleDomain rule)
    (hsuffix : LabelSuffix '.' rule host)
    (hkind : isAddress host = false ∨ canonicalRemoteDomain env.parsers rule = .ok rule) :
    domainLockName env rule ∈ remoteDomainLocks env [domain] := by
  have hhost := hostText_of_canonical laws hread
  refine List.mem_map.mpr ⟨rule, mem_sorted.mpr (List.mem_flatMap.mpr ⟨domain, by simp, ?_⟩), rfl⟩
  rw [remoteDomainLockScopes_eq hread hhost]
  split
  · rename_i haddress
    have hcanonical := hkind.resolve_left (by simp [haddress])
    rcases hsuffix with rfl | hdot
    · exact List.mem_singleton.mpr rfl
    · exfalso
      have hmem : '.' ∈ host := hdot.subset List.mem_cons_self
      rw [isAddress, Bool.or_eq_true, decide_eq_true_eq] at haddress
      rcases haddress with hipv4 | hcolon
      · obtain ⟨read, hread, hsame⟩ := hrule.read laws hcanonical
        have hnumber := endsInNumber_above hipv4 (.inr hdot : LabelSuffix '.' rule host)
        have hread4 := laws.host_number rule read hrule.plain hnumber hread
        rw [trimHost_ipv4 hread4] at hsame
        have hlength := length_labels_lt hdot
        rw [(isIpv4_spec hipv4).1, hsame, (isIpv4_spec hread4).1] at hlength
        exact Nat.lt_irrefl _ hlength
      · rcases hhost.kind with ⟨-, hchars⟩ | hplain
        · exact absurd (hchars '.' hmem) (by decide)
        · exact absurd hcolon (colon_not_mem hplain)
  · exact mem_sorted.mpr (mem_labelSuffixes.mpr hsuffix)

/-! ### Query, policy and locks -/

theorem globalDomainPolicy_prefiltered (laws : PolicyLaws env) {blocks rows : List DomainBlock}
    {nextBlockId : ℤ} (hrules : Rules env blocks nextBlockId) (hhost : HostText host)
    (hrows : rows.Perm (matchingDomainBlocks env host blocks)) :
    globalDomainPolicy env host (rows.map DomainBlock.policyRule) =
      globalDomainPolicy env host (blocks.map DomainBlock.policyRule) := by
  have hdomain : ∀ block ∈ blocks, RuleDomain block.domain := by
    intro block hblock
    obtain ⟨input, hnormalize⟩ := hrules.normalized block hblock
    exact ruleDomain_of_normalize laws hnormalize
  have hmem (block : DomainBlock) : block ∈ rows ↔ block ∈ blocks ∧ prefilter env host block = true := by
    rw [hrows.mem_iff, matchingDomainBlocks, List.mem_filter]
  have hall : ∀ rule ∈ blocks.map DomainBlock.policyRule, RuleDomain rule.domain := by
    intro rule hrule
    obtain ⟨block, hblock, rfl⟩ := List.mem_map.mp hrule
    exact hdomain block hblock
  have hsome : ∀ rule ∈ rows.map DomainBlock.policyRule, RuleDomain rule.domain := by
    intro rule hrule
    obtain ⟨block, hblock, rfl⟩ := List.mem_map.mp hrule
    exact hdomain block ((hmem block).mp hblock).1
  rcases globalDomainPolicy_spec laws hsome hhost with ⟨hnone, hrows⟩ | ⟨hvalid, hrows⟩
  · rcases globalDomainPolicy_spec laws hall hhost with ⟨-, hblocks⟩ | ⟨hvalid, -⟩
    · rw [hrows, hblocks]
    · rw [hnone] at hvalid
      cases hvalid
  · rcases globalDomainPolicy_spec laws hall hhost with ⟨hnone, -⟩ | ⟨-, hblocks⟩
    · rw [hnone] at hvalid
      cases hvalid
    refine Decides.unique ?_ (hrows.congr fun rule hsuffix => ?_) hblocks
    · intro rule hrule other hother hsame
      obtain ⟨block, hblock, rfl⟩ := List.mem_map.mp hrule
      obtain ⟨block', hblock', rfl⟩ := List.mem_map.mp hother
      rw [List.inj_on_of_nodup_map hrules.domains hblock hblock' hsame]
    · simp only [List.mem_map]
      refine ⟨?_, ?_⟩
      · rintro ⟨block, hblock, rfl⟩
        exact ⟨block, ((hmem block).mp hblock).1, rfl⟩
      · rintro ⟨block, hblock, rfl⟩
        exact ⟨block, (hmem block).mpr ⟨hblock,
          (prefilter_iff laws hhost (hdomain block hblock)).mpr hsuffix⟩, rfl⟩

/-- Reading some hosts, and ASCII text. -/
def someText : Env where
  parsers := someHosts
  toAscii := some
  lower := toAsciiLowercase

theorem someText_laws : PolicyLaws someText where
  toUrlLaws := someHosts_laws
  host_plain s host h := by
    rw [IsPlain]
    rcases someHosts_cases h with rfl | rfl | rfl
    · decide
    · decide
    · decide
  host_name s host _ hnumber h := by
    change (if s = exampleHost then some exampleHost else if s = dottedHost then some dottedHost
      else if s = "0x7f.1".toList ∨ s = loopback then some loopback else none) = some host at h
    split_ifs at h with hexample hdotted hloopback
    · rw [hexample, Option.some.inj h]
    · rw [hdotted, Option.some.inj h]
    · rcases hloopback with rfl | rfl
      · exact absurd hnumber (by decide)
      · exact absurd hnumber (by decide)
  host_number s host _ hnumber h := by
    change (if s = exampleHost then some exampleHost else if s = dottedHost then some dottedHost
      else if s = "0x7f.1".toList ∨ s = loopback then some loopback else none) = some host at h
    split_ifs at h with hexample hdotted
    · rw [hexample] at hnumber
      exact absurd hnumber (by decide)
    · rw [hdotted] at hnumber
      exact absurd hnumber (by decide)
    · rw [← Option.some.inj h]
      decide
  ascii_plain s ascii _ h := (Option.some.inj h).symm
  ascii_labels _ _ _ _ _ := rfl
  lower_plain s h := toAsciiLowercase_plain h
  host_colons s address h := by
    exfalso
    have hhead (text : Text) (heq : '[' :: (address ++ [']']) = text) : text.head? = some '[' := by
      rw [← heq, List.head?_cons]
    rcases someHosts_cases h with heq | heq | heq
    · exact absurd (hhead _ heq) (by decide)
    · exact absurd (hhead _ heq) (by decide)
    · exact absurd (hhead _ heq) (by decide)

/-- A suspension of `example.com`. -/
def suspendExample : ℤ × Op := (7, .setDomainBlock ⟨true, exampleHost, 1, false, false⟩)

def exampleBlock : DomainBlock := ⟨1, exampleHost, some 1, false, false, 7, 7⟩

theorem suspendExample_run :
    Run (Step someText) (State.initial []) [suspendExample] ⟨[exampleBlock], [], 2⟩ := by
  have hstep : (⟨[exampleBlock], [], 2⟩ : State) =
      next someText (State.initial []) suspendExample.1 suspendExample.2 := by decide
  exact .cons hstep .nil

end Rustodon.Moderation
