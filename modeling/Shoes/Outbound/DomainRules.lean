import Mathlib.Data.List.Find
import Shoes.Outbound.Index

/-! # Domain rules against a linear scan

The compiled domain rules should pick what a scan of the rules with `match_matcher` picks. They pick
the first rule with a matcher that the indexes accept: a suffix is filed by characters and looked up
by bytes, and a regular expression sees the hostname in lower case. -/
namespace Shoes.Outbound.DomainRules
open Lib Lib.Io Lib.Utf8 Lib.FirstMatch List
open Routing.Matchers Index

variable {Regex : Type} (isMatch : Regex → Str → Bool)

/-! ## What the indexes test -/

/-- The characters, each read as a byte, are the end of the hostname and start a label. -/
def spellsEnd (chars : List Nat) (host : List UInt8) : Bool :=
  !chars.isEmpty && chars.isSuffixOf (host.map UInt8.toNat)
    && (host.length == chars.length || host.getD (host.length - chars.length - 1) 0 == 46)

/-- The test that the index of its kind makes of a matcher. -/
def indexAccepts (host : Str) : ConnectMatcher Regex → Bool
  | .domainKeyword keyword =>
    containsBytes keyword.toAsciiLowercase.bytes host.toAsciiLowercase.bytes
  | .domainFull domain => host.toAsciiLowercase == domain.toAsciiLowercase
  | .domainSuffix domain => spellsEnd domain.chars host.toAsciiLowercase.bytes
  | .domainRegex regex => isMatch regex host.toAsciiLowercase
  | _ => false

theorem lowered_eq (domain) : lowered domain = domain.toAsciiLowercase := by
  unfold lowered
  split
  · rfl
  rename_i hno
  apply Str.ext_bytes
  have hid : ∀ b ∈ domain.bytes, asciiLower b = b := by
    intro b hb
    apply if_neg
    intro hup
    exact hno (any_eq_true.mpr ⟨b, hb, decide_eq_true hup⟩)
  exact ((map_congr_left hid).trans (map_id' _)).symm

/-- What comes before the last `n` bytes of the hostname is empty or ends a label. -/
theorem startsLabel_eq (front back : List UInt8) : ((front ++ back).length == back.length
        || (front ++ back).getD ((front ++ back).length - back.length - 1) 0 == 46)
      = front.getLast?.all (· == 46) := by
  rcases eq_nil_or_concat front with rfl | ⟨init, b, rfl⟩
  · simp
  rw [concat_eq_append]
  have hidx : ((init ++ [b]) ++ back).length - back.length - 1 = init.length := by
    simp only [length_append, length_singleton]
    omega
  have hlen : ¬((init ++ [b]) ++ back).length = back.length := by
    simp only [length_append, length_singleton]
    omega
  rw [hidx, beq_eq_false_iff_ne.mpr hlen]
  simp [List.getD]

/-- Walking from the end of the hostname meets the reversed characters of a suffix exactly
if they spell its end. -/
theorem spellsEnd_iff : spellsEnd chars host = true ↔ ∃ rest, chars.reverse ≠ []
      ∧ chars.reverse ++ rest = host.reverse.map UInt8.toNat
      ∧ rest.head?.all (· == 46) = true := by
  have hcase : ∀ front back : List UInt8, host = front ++ back → chars = back.map UInt8.toNat →
      ((host.length == chars.length || host.getD (host.length - chars.length - 1) 0 == 46) = true
        ↔ (front.map UInt8.toNat).reverse.head?.all (· == 46) = true) := by
    rintro front back rfl rfl
    rw [length_map, startsLabel_eq, List.head?_reverse, List.getLast?_map]
    cases front.getLast? with
    | none => simp
    | some => simp [← UInt8.toNat_inj]
  unfold spellsEnd
  rw [Bool.and_eq_true, Bool.and_eq_true]
  constructor
  · rintro ⟨⟨hne, hsuf⟩, hlabel⟩
    obtain ⟨_, hpre⟩ := isSuffixOf_iff_suffix.mp hsuf
    obtain ⟨front, back, hhost, rfl, hback⟩ := map_eq_append_iff.mp hpre.symm
    refine ⟨(front.map UInt8.toNat).reverse, by simpa using hne, ?_,
      (hcase front back hhost hback.symm).mp hlabel⟩
    rw [← reverse_append, map_reverse, ← hpre]
  rintro ⟨rest, hne, hrest, hlabel⟩
  have hpre : rest.reverse ++ chars = host.map UInt8.toNat := by
    have hr := congrArg List.reverse hrest
    simpa using hr
  obtain ⟨front, back, hhost, hfront, hback⟩ := map_eq_append_iff.mp hpre.symm
  refine ⟨⟨by simpa using hne, isSuffixOf_iff_suffix.mpr ⟨_, hpre⟩⟩, ?_⟩
  rw [hcase front back hhost hback.symm, hfront, reverse_reverse]
  exact hlabel

/-! ## The indexes together -/

section
variable {isMatch} {flat : List (Entry Regex)} {inner : CompiledRulesInner Regex}

theorem suffix_isLeast (h : Indexed flat inner) (host) :
    IsLeast (fun c => ∃ d, (c.1, .domainSuffix d, c.2) ∈ flat
      ∧ spellsEnd d.chars host.bytes = true) (SuffixTrie.query inner.suffixTrie host none) := by
  refine (SuffixTrie.query_isLeast inner.suffixTrie host).congr fun c => ?_
  constructor
  · rintro ⟨d, hd, hspell⟩
    obtain ⟨rest, hne, hrest, hlabel⟩ := spellsEnd_iff.mp hspell
    exact ⟨_, rest, hne, hrest, hlabel, (h.suffix _ c).mpr ⟨d, hd, rfl⟩⟩
  rintro ⟨qs, rest, hne, hrest, hlabel, hc⟩
  obtain ⟨d, hd, rfl⟩ := (h.suffix qs c).mp hc
  exact ⟨d, hd, spellsEnd_iff.mpr ⟨rest, hne, hrest, hlabel⟩⟩

theorem ascending_filterMap {γ : Type} {f : Entry Regex → Option γ} {cand : γ → Nat × Str}
    (hf : ∀ e g, f e = some g → (cand g).1 = e.1) (hasc : flat.Pairwise fun e e' => e.1 ≤ e'.1) :
    (flat.filterMap f).Pairwise fun g g' => (cand g).1 ≤ (cand g').1 := by
  rw [pairwise_filterMap]
  refine hasc.imp fun hle g hg g' hg' => ?_
  rwa [hf _ g hg, hf _ g' hg']

theorem bestDomain_isLeast (h : Indexed flat inner) (hasc : flat.Pairwise fun e e' => e.1 ≤ e'.1)
    (host) : IsLeast (fun c => ∃ m, (c.1, m, c.2) ∈ flat ∧ indexAccepts isMatch host m = true)
      (inner.bestDomain isMatch host.toAsciiLowercase) := by
  have hkw : inner.keywords.Pairwise fun g g' => (keywordCand g).1 ≤ (keywordCand g').1 := by
    rw [h.keywords]
    refine ascending_filterMap ?_ hasc
    rintro ⟨order, m, outbound⟩ g hg
    cases m <;> cases hg
    rfl
  have hre : inner.regexes.Pairwise fun g g' => (regexCand g).1 ≤ (regexCand g').1 := by
    rw [h.regexes]
    refine ascending_filterMap ?_ hasc
    rintro ⟨order, m, outbound⟩ g hg
    cases m <;> cases hg
    rfl
  refine (((((suffix_isLeast h host.toAsciiLowercase).offerFound (h.full _)).offerUntil _ _
    hkw).offerUntil _ _ hre).congr fun c => ?_)
  rw [h.keywords, h.regexes]
  constructor
  · rintro ⟨m, hm, hacc⟩
    cases m with
    | domainSuffix d => exact .inl (.inl (.inl ⟨d, hm, hacc⟩))
    | domainFull d => exact .inl (.inl (.inr ⟨d, hm, (beq_iff_eq.mp hacc).symm⟩))
    | domainKeyword => exact .inl (.inr ⟨_, mem_filterMap.mpr ⟨_, hm, rfl⟩, hacc, rfl⟩)
    | domainRegex => exact .inr ⟨_, mem_filterMap.mpr ⟨_, hm, rfl⟩, hacc, rfl⟩
    | location | protocol => cases hacc
  rintro (((⟨d, hm, hacc⟩ | ⟨d, hm, hacc⟩) | ⟨g, hg, hacc, rfl⟩) | ⟨g, hg, hacc, rfl⟩)
  · exact ⟨.domainSuffix d, hm, hacc⟩
  · exact ⟨.domainFull d, hm, beq_iff_eq.mpr hacc.symm⟩
  · obtain ⟨⟨order, m, outbound⟩, hm, hk⟩ := mem_filterMap.mp hg
    cases m <;> cases hk
    exact ⟨_, hm, hacc⟩
  obtain ⟨⟨_, m, _⟩, hm, hk⟩ := mem_filterMap.mp hg
  cases m <;> cases hk
  exact ⟨_, hm, hacc⟩

end

/-! ## Against the scan -/

section
variable (expandGeosite expandGeoip : Str → Except IoError (List (ParsedRule Regex)))

def ruleIndexAccepts (host : Str) (rule : ParsedRule Regex) : Bool :=
  (matchersOf expandGeosite expandGeoip rule).any (indexAccepts isMatch host)

def ruleAccepts (host : Str) (rule : ParsedRule Regex) : Bool :=
  (matchersOf expandGeosite expandGeoip rule).any fun m => matchHostname isMatch m host

variable {isMatch expandGeosite expandGeoip} {rules : List (ParsedRule Regex)}
  {compiled : CompiledRules Regex}

/-- **What the compiled domain rules pick.** The outbound of the first rule with a matcher
that the indexes accept. -/
theorem matchDomain_eq_firstMatch (h : compile expandGeosite expandGeoip rules = .ok compiled)
    (host) : compiled.matchDomain isMatch host
      = firstMatch (ruleIndexAccepts isMatch expandGeosite expandGeoip host) ParsedRule.outbound
        rules := by
  rw [CompiledRules.matchDomain, lowered_eq]
  refine compile_firstMatch h ?_
  intro flat inner hnum hix
  exact bestDomain_isLeast hix hnum.ascending host

/-- **The compiled domain rules and the scan.** They pick the same outbound exactly if,
where only one of the two tests accepts the first rule that either accepts, the other finds
the same outbound further down. -/
theorem match_domain_eq_scan_iff (h : compile expandGeosite expandGeoip rules = .ok compiled)
    (host : Str) : compiled.matchDomain isMatch host
        = firstMatch (ruleAccepts isMatch expandGeosite expandGeoip host) ParsedRule.outbound rules
      ↔ Agree (ruleIndexAccepts isMatch expandGeosite expandGeoip host)
        (ruleAccepts isMatch expandGeosite expandGeoip host) ParsedRule.outbound rules := by
  rw [matchDomain_eq_firstMatch h]
  exact firstMatch_eq_iff _ _ _ rules

/-- A matcher in the form that the CRS parser gives it, with an ASCII suffix or an expression that
does not look at case. -/
def IsPlain (isMatch : Regex → Str → Bool) (host : Str) : ConnectMatcher Regex → Prop
  | .domainKeyword value | .domainFull value => value.bytes ≠ [] ∧ value.toAsciiLowercase = value
  | .domainSuffix domain => domain.bytes ≠ [] ∧ ∀ b ∈ domain.bytes, b < 0x80
  | .domainRegex regex => isMatch regex host.toAsciiLowercase = isMatch regex host
  | _ => True

theorem chars_ascii {bs : List UInt8} (h : ∀ b ∈ bs, b < 0x80) :
    charsFrom 0 0 bs = bs.map UInt8.toNat := by
  induction bs with
  | nil => rfl
  | cons b bs ih =>
    obtain ⟨hb, hbs⟩ := forall_mem_cons.mp h
    rw [charsFrom, if_pos hb, ih hbs, map_cons]

theorem indexAccepts_plain {m : ConnectMatcher Regex} {host} (h : IsPlain isMatch host m) :
    indexAccepts isMatch host m = matchHostname isMatch m host := by
  cases m with
  | domainKeyword value => simp [indexAccepts, matchHostname, h.1, h.2]
  | domainFull value => simp [indexAccepts, matchHostname, h.1]
  | domainSuffix domain =>
    have hsuffix (host : List UInt8) : (domain.bytes.map UInt8.toNat).isSuffixOf
        (host.map UInt8.toNat) = domain.bytes.isSuffixOf host := by
      rw [Bool.eq_iff_iff, isSuffixOf_iff_suffix, isSuffixOf_iff_suffix]
      refine ⟨fun hmap => ?_, fun hbytes => hbytes.map _⟩
      have hback := hmap.map UInt8.ofNat
      simpa [map_map, Function.comp_def] using hback
    simp only [indexAccepts, matchHostname, spellsEnd, matchesDomain, Str.chars, chars_ascii h.2,
      hsuffix, isEmpty_map, length_map, Bool.and_assoc]
  | domainRegex regex => exact h
  | location | protocol => rfl

/-- **Plain matchers meet the condition**, whatever the hostname. -/
theorem matchDomain_eq_scan_of_plain (h : compile expandGeosite expandGeoip rules = .ok compiled)
    (host) (hplain : ∀ rule ∈ rules, ∀ m ∈ matchersOf expandGeosite expandGeoip rule,
      IsPlain isMatch host m) : compiled.matchDomain isMatch host = firstMatch
        (ruleAccepts isMatch expandGeosite expandGeoip host) ParsedRule.outbound rules := by
  rw [matchDomain_eq_firstMatch h, firstMatch, firstMatch]
  refine congrArg _ (find?_congr fun rule hrule => ?_)
  rw [ruleIndexAccepts, ruleAccepts, Bool.eq_iff_iff, any_eq_true, any_eq_true]
  exact exists_congr fun m => and_congr_right fun hm =>
    by rw [indexAccepts_plain (hplain rule hrule m hm)]

/-- `via`, `out`, `shop.fr`, `A.SHOP.FR` and `é.fr`. -/
def via : Str := ⟨[118, 105, 97], by decide⟩
def out : Str := ⟨[111, 117, 116], by decide⟩
def shop : Str := ⟨[115, 104, 111, 112, 46, 102, 114], by decide⟩
def shopUpper : Str := ⟨[65, 46, 83, 72, 79, 80, 46, 70, 82], by decide⟩
def accented : Str := ⟨[0xC3, 0xA9, 46, 102, 114], by decide⟩

/-- A rule set with the suffix comes before a rule for the domain itself, and the hostname
is in upper case. -/
theorem match_domain_eq_scan_expanded :
    ∃ compiled, compile (fun _ => .ok [⟨0, via, some (.domainSuffix shop), none, out⟩])
        (fun _ => .ok []) [⟨1, via, none, some (.geosite out), via⟩,
          ⟨2, via, some (.domainFull shop), none, out⟩] = .ok compiled
      ∧ compiled.matchDomain (fun (_ : Unit) _ => false) shopUpper = firstMatch
        (ruleAccepts (fun (_ : Unit) _ => false)
          (fun _ => .ok [⟨0, via, some (.domainSuffix shop), none, out⟩]) (fun _ => .ok [])
          shopUpper) ParsedRule.outbound [⟨1, via, none, some (.geosite out), via⟩,
            ⟨2, via, some (.domainFull shop), none, out⟩] :=
  ⟨_, rfl, (match_domain_eq_scan_iff rfl shopUpper).mpr (by decide +kernel)⟩

/-- A suffix that is not ASCII never matches: it is filed under one character where the
hostname has two bytes. -/
theorem accented_suffix_never_matches : ∃ compiled, compile (fun _ => .ok []) (fun _ => .ok [])
        [⟨1, via, some (.domainSuffix accented), none, out⟩] = .ok compiled
      ∧ compiled.matchDomain (fun (_ : Unit) _ => false) accented = none
      ∧ firstMatch (ruleAccepts (fun (_ : Unit) _ => false) (fun _ => .ok []) (fun _ => .ok [])
          accented) ParsedRule.outbound
          [⟨1, via, some (.domainSuffix accented), none, out⟩] = some out :=
  ⟨_, rfl, by decide +kernel, by decide +kernel⟩

end

end Shoes.Outbound.DomainRules
