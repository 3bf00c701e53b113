/-
What is left of a reload that fails.

`reload` replaces the providers, the flag for IPv6, the two lists, the onion provider and
the hosts map in this order. The handler takes every exception of the providers
(`from_file_loop_error`), and each of the last four pieces can throw one that leaves
`reload` (`reload_returns_iff`). Where it stops depends on the files and the parameters
alone: `stop` is the place, with what was read until then. The responder is as it was
before exactly when it held that already (`reload_keeps_iff`).
-/
import Cdns.Config
import Cdns.FilterSpec
import Cdns.ResponderSpec

set_option autoImplicit false

namespace Cdns

open Lib.Unordered

/-! ## Exceptions of the resolvers -/

namespace detail

theorem split_error {s : Str} {e : Exn} (hs : s ≠ []) (h : split s = .error e) :
    e.is_runtime_error = true := by
  unfold split at h
  dsimp only at h
  split at h
  · exact absurd rfl hs
  · split_ifs at h
    · split at h
      · rw [← Except.error.inj h]
        rfl
      · split_ifs at h
        rw [← Except.error.inj h]
        rfl
    · split at h
      · exact absurd h (by simp)
      · exact absurd h (by simp)

theorem str2u16_error {s : Str} {e : Exn} (h : str2u16 s = .error e) :
    e.is_runtime_error = true := by
  unfold str2u16 at h
  dsimp only at h
  split_ifs at h
  all_goals
    rw [← Except.error.inj h]
    rfl

theorem make_address_error {net : Inet} {af : inet} {s : Str} {port : ℕ} {e : Exn}
    (h : make_address net af s port = .error e) : e.is_runtime_error = true := by
  unfold make_address at h
  split at h
  · exact absurd h (by simp)
  · rw [← Except.error.inj h]
    rfl

end detail

/-- What an address throws is a `runtime_error`, unless its text is empty. -/
theorem address.of_text_error {net : Inet} {s : Str} {port : ℕ} {e : Exn} (hs : s ≠ [])
    (h : of_text net s port = .error e) : e.is_runtime_error = true := by
  rcases Result.bind_eq_error.mp h with hsplit | ⟨a, -, h⟩
  · exact detail.split_error hs hsplit
  · dsimp only at h
    by_cases hempty : a.port = []
    · rw [if_pos hempty] at h
      exact detail.make_address_error h
    · rw [if_neg hempty] at h
      rcases Result.bind_eq_error.mp h with hport | ⟨port', -, h⟩
      · exact detail.str2u16_error hport
      · exact detail.make_address_error h

namespace responder

theorem add_provider_error {net : Inet} {noipv6 : Bool} {p : proto} {result : List provider}
    {word : Str} {e : Exn} (hword : word ≠ [])
    (h : add_provider net noipv6 p result word = .error e) : e.is_runtime_error = true := by
  rcases Result.bind_eq_error.mp h with haddr | ⟨a, -, h⟩
  · exact address.of_text_error hword haddr
  · exact absurd h (by simp)

/-- **The handler takes every exception of the resolvers.** -/
theorem from_file_loop_error {net : Inet} {noipv6 : Bool} {p : proto} {e : Exn} (n : ℕ) :
    ∀ {f : Str} {result : List provider}, from_file_loop net noipv6 p n f result = .error e →
      e.is_runtime_error = true := by
  induction n with
  | zero =>
      intro f result h
      exact absurd h (by simp [from_file_loop])
  | succ n ih =>
      intro f result h
      rw [from_file_loop] at h
      split at h
      · exact absurd h (by simp)
      · next word rest hword =>
        split_ifs at h
        · exact ih h
        · -- the address of a server
          split at h
          · exact absurd h (by simp)
          · next server rest' hserver =>
            split_ifs at h
            rcases Result.bind_eq_error.mp h with hadd | ⟨result', -, h⟩
            · exact add_provider_error ((Str.read_word_spec hserver).1) hadd
            · exact ih h
        · rcases Result.bind_eq_error.mp h with hadd | ⟨result', -, h⟩
          · exact add_provider_error ((Str.read_word_spec hword).1) hadd
          · exact ih h

/-- The providers that the handler leaves: those that were read, or else those that were
held. -/
def resolvers_after (d : Disk) (params : responder_parameters) (r : responder) : List provider :=
  match resolvers_of d params with
  | .ok rslvs => rslvs
  | .error _ => r.dns_providers

/-- A reload goes on with the providers that the handler leaves. -/
theorem reload_eq (d : Disk) (params : responder_parameters) (r : responder) :
    reload d params r =
      reload_rest d params { r with dns_providers := r.resolvers_after d params } := by
  unfold reload resolvers_after
  cases hrslvs : resolvers_of d params with
  | ok rslvs => rfl
  | error e =>
      dsimp only
      rw [if_pos (from_file_loop_error _ hrslvs)]

/-! ## What makes a reload throw -/

/-- Files are merged to the end when no word of them is too long. -/
theorem merge_files_returns (d : Disk) (fns : List Str) : ∀ list : Filter,
    (merge_files d list fns).2 = none ↔ ∀ fn ∈ fns, ∀ w ∈ Filter.rule_words (d.text fn),
      w.length ≤ Filter.MAX_QNAME_LENGTH := by
  induction fns with
  | nil => exact fun _ => iff_of_true rfl (by simp)
  | cons fn fns ih =>
      intro list
      rw [merge_files, List.forall_mem_cons]
      cases hf : Filter.of_file d fn with
      | error e =>
          refine iff_of_false (by simp) fun h => ?_
          obtain ⟨g, hg, -⟩ := Filter.of_stream_canon d.H h.1
          exact absurd (hf.symm.trans hg) (by simp)
      | ok other =>
          dsimp only
          rw [ih]
          exact (and_iff_right (Filter.length_le_of_of_stream hf)).symm

/-- **What a reload needs**: no word of a list is too long, and what the parameters name
as the onion provider and as the hosts file can be read, if they name anything. -/
structure Readable (d : Disk) (params : responder_parameters) : Prop where
  whitelists : ∀ fn ∈ params.whitelists, ∀ w ∈ Filter.rule_words (d.text fn),
    w.length ≤ Filter.MAX_QNAME_LENGTH
  blacklists : ∀ fn ∈ params.blacklists, ∀ w ∈ Filter.rule_words (d.text fn),
    w.length ≤ Filter.MAX_QNAME_LENGTH
  onion : (onion_of d params).returns
  hosts : (hosts_of d params).returns

/-- **Where a reload can stop**: at the lists, at the onion provider, at the hosts file, or
nowhere. What was read until then is in the responder. -/
theorem reload_rest_cases (d : Disk) (params : responder_parameters) (r : responder) :
    (∃ white e, merge_files d Filter.empty params.whitelists = (white, some e) ∧
      reload_rest d params r
        = ({ r with noipv6 := params.noipv6, whitelist := white }, some e)) ∨
    (∃ white black e, merge_files d Filter.empty params.whitelists = (white, none) ∧
      merge_files d Filter.empty params.blacklists = (black, some e) ∧
      reload_rest d params r
        = ({ r with noipv6 := params.noipv6, whitelist := white, blacklist := black }, some e)) ∨
    (∃ white black e, merge_files d Filter.empty params.whitelists = (white, none) ∧
      merge_files d Filter.empty params.blacklists = (black, none) ∧
      onion_of d params = .error e ∧ reload_rest d params r
        = ({ r with noipv6 := params.noipv6, whitelist := white, blacklist := black }, some e)) ∨
    (∃ white black onion e, merge_files d Filter.empty params.whitelists = (white, none) ∧
      merge_files d Filter.empty params.blacklists = (black, none) ∧
      onion_of d params = .ok onion ∧ hosts_of d params = .error e ∧ reload_rest d params r
        = ({ r with noipv6 := params.noipv6, whitelist := white, blacklist := black,
                    onion_provider := onion }, some e)) ∨
    (∃ white black onion map, merge_files d Filter.empty params.whitelists = (white, none) ∧
      merge_files d Filter.empty params.blacklists = (black, none) ∧
      onion_of d params = .ok onion ∧ hosts_of d params = .ok map ∧ reload_rest d params r
        = ({ r with noipv6 := params.noipv6, whitelist := white, blacklist := black,
                    onion_provider := onion, hosts := map }, none)) := by
  unfold reload_rest
  dsimp only
  rcases merge_files d Filter.empty params.whitelists with ⟨white, _ | e⟩
  · rcases merge_files d Filter.empty params.blacklists with ⟨black, _ | e⟩
    · cases onion_of d params with
      | error e => exact Or.inr (Or.inr (Or.inl ⟨white, black, e, rfl, rfl, rfl, rfl⟩))
      | ok onion =>
          dsimp only
          cases hosts_of d params with
          | error e =>
              exact Or.inr (Or.inr (Or.inr (Or.inl ⟨white, black, onion, e, rfl, rfl, rfl, rfl, rfl⟩)))
          | ok map =>
              exact Or.inr (Or.inr (Or.inr (Or.inr
                ⟨white, black, onion, map, rfl, rfl, rfl, rfl, rfl⟩)))
    · exact Or.inr (Or.inl ⟨white, black, e, rfl, rfl, rfl⟩)
  · exact Or.inl ⟨white, e, rfl, rfl⟩

theorem reload_rest_returns_iff (d : Disk) (params : responder_parameters) (r : responder) :
    (reload_rest d params r).2 = none ↔ Readable d params := by
  have hwhite := merge_files_returns d params.whitelists Filter.empty
  have hblack := merge_files_returns d params.blacklists Filter.empty
  obtain ⟨white, e, hw, hr⟩ | ⟨white, black, e, hw, hb, hr⟩ | ⟨white, black, e, hw, hb, ho, hr⟩ |
    ⟨white, black, onion, e, hw, hb, ho, hh, hr⟩ | ⟨white, black, onion, map, hw, hb, ho, hh, hr⟩ :=
    reload_rest_cases d params r
  · rw [hr]
    refine iff_of_false (by simp) fun h => ?_
    have hnone := hwhite.mpr h.whitelists
    rw [hw] at hnone
    exact absurd hnone (by simp)
  · rw [hr]
    refine iff_of_false (by simp) fun h => ?_
    have hnone := hblack.mpr h.blacklists
    rw [hb] at hnone
    exact absurd hnone (by simp)
  · rw [hr]
    refine iff_of_false (by simp) fun h => ?_
    have hreturns := h.onion
    rw [ho] at hreturns
    exact Result.not_returns_error _ hreturns
  · rw [hr]
    refine iff_of_false (by simp) fun h => ?_
    have hreturns := h.hosts
    rw [hh] at hreturns
    exact Result.not_returns_error _ hreturns
  · rw [hr]
    exact iff_of_true rfl ⟨hwhite.mp (by rw [hw]), hblack.mp (by rw [hb]), ⟨onion, ho⟩, ⟨map, hh⟩⟩

/-- **When a reload does not throw.** -/
theorem reload_returns_iff (d : Disk) (params : responder_parameters) (r : responder) :
    (reload d params r).2 = none ↔ Readable d params := by
  rw [reload_eq]
  exact reload_rest_returns_iff d params _

/-- The providers are replaced, whatever happens afterwards. -/
theorem reload_dns_providers (d : Disk) (params : responder_parameters) (r : responder) :
    (reload d params r).1.dns_providers = r.resolvers_after d params := by
  rw [reload_eq]
  obtain ⟨_, _, -, hr⟩ | ⟨_, _, _, -, -, hr⟩ | ⟨_, _, _, -, -, -, hr⟩ | ⟨_, _, _, _, -, -, -, -, hr⟩ |
    ⟨_, _, _, _, -, -, -, -, hr⟩ := reload_rest_cases d params
      { r with dns_providers := r.resolvers_after d params }
  all_goals rw [hr]

/-- The hosts are replaced last, so they are those of the file when nothing is thrown. -/
theorem reload_hosts {d : Disk} {params : responder_parameters} {r : responder}
    (h : (reload d params r).2 = none) : hosts_of d params = .ok (reload d params r).1.hosts := by
  rw [reload_eq] at h ⊢
  obtain ⟨_, _, -, hr⟩ | ⟨_, _, _, -, -, hr⟩ | ⟨_, _, _, -, -, -, hr⟩ | ⟨_, _, _, _, -, -, -, -, hr⟩ |
    ⟨_, _, _, map, -, -, -, hh, hr⟩ := reload_rest_cases d params
      { r with dns_providers := r.resolvers_after d params }
  case inr.inr.inr.inr => rw [hh, hr]
  all_goals
    rw [hr] at h
    exact absurd h (by simp)

end responder

/-! ## What is left of it -/

/-- Where a reload stops, with what was read until then. -/
inductive stop where
  | nowhere
  | whitelist (white : Filter)
  | blacklist (white black : Filter)
  | onion (white black : Filter)
  | hosts (white black : Filter) (onion_provider : Option provider)

namespace responder

/-- The place where a reload stops. -/
def stop_of (d : Disk) (params : responder_parameters) : stop :=
  match merge_files d Filter.empty params.whitelists with
  | (white, some _) => .whitelist white
  | (white, none) =>
      match merge_files d Filter.empty params.blacklists with
      | (black, some _) => .blacklist white black
      | (black, none) =>
          match onion_of d params with
          | .error _ => .onion white black
          | .ok onion_provider =>
              match hosts_of d params with
              | .error _ => .hosts white black onion_provider
              | .ok _ => .nowhere

/-- The pieces that `reload` replaces are the same. -/
structure Kept (r r' : responder) : Prop where
  dns_providers : r'.dns_providers = r.dns_providers
  noipv6 : r'.noipv6 = r.noipv6
  whitelist : r'.whitelist = r.whitelist
  blacklist : r'.blacklist = r.blacklist
  onion_provider : r'.onion_provider = r.onion_provider
  hosts : r'.hosts = r.hosts

/-- The providers, the flag and what was read until the reload stopped are what is held. -/
def Holds (d : Disk) (params : responder_parameters) (r : responder) (s : stop) : Prop :=
  r.resolvers_after d params = r.dns_providers ∧ params.noipv6 = r.noipv6 ∧
    match s with
    | .nowhere => True
    | .whitelist white => white = r.whitelist
    | .blacklist white black => white = r.whitelist ∧ black = r.blacklist
    | .onion white black => white = r.whitelist ∧ black = r.blacklist
    | .hosts white black onion_provider =>
        white = r.whitelist ∧ black = r.blacklist ∧ onion_provider = r.onion_provider

/-- **What a reload that throws leaves**, in terms of what it had read. -/
theorem kept_iff_holds (d : Disk) (params : responder_parameters) (r : responder)
    (h : (reload d params r).2 ≠ none) :
    r.Kept (reload d params r).1 ↔ r.Holds d params (stop_of d params) := by
  rw [reload_eq] at h ⊢
  obtain ⟨white, e, hw, hr⟩ | ⟨white, black, e, hw, hb, hr⟩ | ⟨white, black, e, hw, hb, ho, hr⟩ |
    ⟨white, black, onion, e, hw, hb, ho, hh, hr⟩ | ⟨white, black, onion, map, hw, hb, ho, hh, hr⟩ :=
    reload_rest_cases d params { r with dns_providers := r.resolvers_after d params }
  · have hstop : stop_of d params = .whitelist white := by
      rw [stop_of, hw]
    rw [hr, hstop]
    constructor
    · intro hkept
      exact ⟨hkept.dns_providers, hkept.noipv6, hkept.whitelist⟩
    · rintro ⟨hproviders, hflag, hwhite⟩
      exact ⟨hproviders, hflag, hwhite, rfl, rfl, rfl⟩
  · have hstop : stop_of d params = .blacklist white black := by
      rw [stop_of, hw, hb]
    rw [hr, hstop]
    constructor
    · intro hkept
      exact ⟨hkept.dns_providers, hkept.noipv6, hkept.whitelist, hkept.blacklist⟩
    · rintro ⟨hproviders, hflag, hwhite, hblack⟩
      exact ⟨hproviders, hflag, hwhite, hblack, rfl, rfl⟩
  · have hstop : stop_of d params = .onion white black := by
      rw [stop_of, hw, hb, ho]
    rw [hr, hstop]
    constructor
    · intro hkept
      exact ⟨hkept.dns_providers, hkept.noipv6, hkept.whitelist, hkept.blacklist⟩
    · rintro ⟨hproviders, hflag, hwhite, hblack⟩
      exact ⟨hproviders, hflag, hwhite, hblack, rfl, rfl⟩
  · have hstop : stop_of d params = .hosts white black onion := by
      rw [stop_of, hw, hb, ho, hh]
    rw [hr, hstop]
    constructor
    · intro hkept
      exact ⟨hkept.dns_providers, hkept.noipv6, hkept.whitelist, hkept.blacklist,
        hkept.onion_provider⟩
    · rintro ⟨hproviders, hflag, hwhite, hblack, honion⟩
      exact ⟨hproviders, hflag, hwhite, hblack, honion, rfl⟩
  · rw [hr] at h
    exact absurd rfl h

/-- **Whether a reload is all or nothing.** For every state, all parameters and all
contents of the files: `reload` leaves the responder as it was if it throws, if and only
if all that it needs can be read, or what it had read until it stopped was held before. -/
theorem reload_keeps_iff (d : Disk) (params : responder_parameters) (r : responder) :
    ((reload d params r).2 ≠ none → r.Kept (reload d params r).1) ↔
      Readable d params ∨ r.Holds d params (stop_of d params) := by
  by_cases hread : Readable d params
  · have hnone := (reload_returns_iff d params r).mpr hread
    exact iff_of_true (fun h => absurd hnone h) (Or.inl hread)
  · have hthrown : (reload d params r).2 ≠ none :=
      fun h => hread ((reload_returns_iff d params r).mp h)
    rw [forall_prop_of_true hthrown, kept_iff_holds d params r hthrown, or_iff_right hread]

/-! ### A reload that empties the white list -/

/-- No file can be opened. -/
def sampleDisk : Disk := ⟨sampleInet, fun _ => none, Placement.front Str⟩

/-- Parameters that name a hosts file and nothing else. -/
def sampleParameters : responder_parameters where
  timeout := 7.5
  resolvers := []
  hosts := "hosts".toList
  onion := []
  noipv6 := false
  net_proto := .udp
  whitelists := []
  blacklists := []

/-- **A hosts file that is missing**: `reload` throws, and the white list is empty, so that
every name passes. -/
theorem reload_empties_whitelist : ∃ white,
    Filter.of_stream sampleDisk.H "a".toList = .ok white ∧
    (reload sampleDisk sampleParameters { sampleResponder with whitelist := white }).2 =
      some (.runtime_error "failed to open file: hosts") ∧
    white.is_empty = false ∧
    (reload sampleDisk sampleParameters
      { sampleResponder with whitelist := white }).1.whitelist.is_empty = true ∧
    ¬ Kept { sampleResponder with whitelist := white }
      (reload sampleDisk sampleParameters { sampleResponder with whitelist := white }).1 := by
  have hstate : ∃ white, Filter.of_stream sampleDisk.H "a".toList = .ok white ∧
      (reload sampleDisk sampleParameters { sampleResponder with whitelist := white }).2 =
        some (.runtime_error "failed to open file: hosts") ∧
      white.is_empty = false ∧
      (reload sampleDisk sampleParameters
        { sampleResponder with whitelist := white }).1.whitelist.is_empty = true :=
    ⟨_, rfl, rfl, rfl, rfl⟩
  obtain ⟨white, hwhite, hthrown, hfull, hempty⟩ := hstate
  refine ⟨white, hwhite, hthrown, hfull, hempty, fun hkept => ?_⟩
  rw [hkept.whitelist] at hempty
  exact absurd (hempty.symm.trans hfull) (by simp)

end responder

end Cdns
