/-
What a daemon keeps over a restart.

When the event loop ends, `daemon::execute` saves the cache, and the constructor of the next
responder loads it. In between are the life of the daemon, the order in which a hash set goes over
its entries, and the memory that the reader does not clear. None of it matters: over the whole life
of a daemon that was made, from whatever file, every entry of its cache fits into the file
(`run_fits`), so it is there again after the restart, and the next daemon answers from its cache as
this one would have (`restart`).

There is one exception. The reader takes no entry without a name, and a message for the root name
is filed without one. Such an entry makes the file unreadable, and the next daemon starts with an
empty cache.
-/
import Cdns.HostsAnswer
import Cdns.Start

set_option autoImplicit false

namespace Cdns

open Lib.Keyed Lib.Machine

/-! ## Entries -/

namespace Cache

/-- A message that is filed makes an entry that fits. -/
theorem fits_of_filed {m : Query} {k : Str × ℕ} {t : ℤ} {minttl : ℕ} (h : filed m = some k)
    (ht : InClock t) : Fits ⟨k.1, k.2, t + life minttl m, m.wire⟩ := by
  have e₁ : max_host_name_length = 256 := rfl
  obtain ⟨owner, type, hq, rfl⟩ := accepted_eq_some (accepted_of_filed h)
  obtain ⟨hlo, hhi⟩ := ht
  have hname := (Query.get_question_name hq).1
  have hlen := Query.size_of_get_question hq
  have hlife : life minttl m ≤ max_ttl := life_le minttl m
  have hnonneg := life_nonneg minttl m
  refine ⟨?_, toNat_ascii_tolower hq, Query.get_question_type_lt hq, ?_, ?_, ?_, ?_⟩
  · show (ascii_tolower owner).length ≤ 300
    rw [ascii_tolower, List.length_map]
    omega
  · show -2 ^ 63 ≤ t + life minttl m
    omega
  · show t + life minttl m < 2 ^ 63
    omega
  · show 12 ≤ m.wire.length
    rw [Query.wire_length]
    omega
  · show m.wire.length ≤ max_size
    rw [Query.wire_length]
    exact m.size_le

/-- **Storing a message keeps the entries in the limits of the file.** -/
theorem step_store_fits {c : Cache} {t : ℤ} {m : Query} (hc : ∀ e ∈ c.entries.elems, Fits e)
    (ht : InClock t) : ∀ e ∈ (c.step (.store t m)).entries.elems, Fits e := by
  intro e he
  have hlookup : (c.step (.store t m)).entries.lookup e.key = some e :=
    KeyedSet.lookup_eq_some.mpr ⟨he, rfl⟩
  rw [step_store_filed] at hlookup
  split_ifs at hlookup with hfiled
  · rw [← Option.some.inj hlookup]
    exact fits_of_filed hfiled ht
  · exact hc e (KeyedSet.lookup_eq_some.mp hlookup).1

/-- Two caches with the same entries, one of them without some that have expired, answer alike. -/
theorem retrieve_of_live {c c' : Cache} {t₀ t : ℤ} (hle : t₀ ≤ t)
    (h : ∀ k, c'.entries.lookup k = (c.entries.lookup k).filter fun e => !(e.deadline < t₀))
    (q : Query) : c'.retrieve t q = c.retrieve t q := by
  unfold retrieve
  congr 1
  funext p
  obtain ⟨hn, _, type⟩ := p
  dsimp only
  have hfind : c'.find hn type = (c.find hn type).filter fun e => !(e.deadline < t₀) := h _
  rw [hfind]
  cases hold : c.find hn type with
  | none => rfl
  | some e =>
      by_cases hdead : e.deadline < t₀
      · -- it would not have been used any more
        rw [Option.filter_some_neg (by simp [hdead])]
        dsimp only
        rw [dif_neg (by omega)]
      · rw [Option.filter_some_pos (by simp [hdead])]

end Cache

namespace daemon

variable {x x' : Startup} {params params' : start_parameters} {d₀ d d' : daemon}
  {es : List daemon_event} {out : List daemon_output}

/-! ## A life -/

/-- The clock of every event is a `std::time_t` for as long as a deadline reaches. -/
def InClock (es : List daemon_event) : Prop :=
  ∀ e ∈ es, ∀ env, e.env = some env → Cache.InClock env.tnow

/-- **A whole life**: if the entries of the cache fit into a file in the beginning, they do in the
end. -/
theorem run_fits (h₀ : d₀.Fresh) (hfits : ∀ e ∈ d₀.responder.cache.entries.elems, Cache.Fits e)
    (hclock : InClock es) (h : d₀.run es = .ok (d, out)) :
    ∀ e ∈ d.responder.cache.entries.elems, Cache.Fits e := by
  have hall : InClock es → ∀ e ∈ d.responder.cache.entries.elems, Cache.Fits e := by
    refine run_rule (I := fun past s _ => InClock past →
      ∀ e ∈ s.responder.cache.entries.elems, Cache.Fits e) (s := d₀) (fun _ => hfits) ?_ h
    intro past s seen e s' new hpast hs hstep hin
    have hbefore := hs fun e' he' => hin e' (List.mem_append_left _ he')
    have hlife : ∀ t, some t ∈ s.upstream_requests → ∃ p req, t.upstream.Life p req := by
      intro t ht
      obtain ⟨_, _, _, p, req, -, -, hu⟩ := run_life h₀ hpast ht
      exact ⟨p, req, hu⟩
    rcases step_cache hlife hstep with hsame | ⟨t, m, hlearns, hstored⟩
    · rw [hsame]
      exact hbefore
    · -- the time of what was learnt is that of the event
      have ht : Cache.InClock t := by
        cases hlearns with
        | hosts henv _ _ => exact hin e (by simp) _ henv
        | provider henv _ => exact hin e (by simp) _ henv
      rw [hstored]
      exact Cache.step_store_fits hbefore ht
  exact hall hclock

/-! ## The end and the beginning -/

/-- The end of `daemon::execute`: the file of the cache, if there is to be one. The entries are in
the order in which the hash set goes over them. -/
def finish (d : daemon) (ents : List cache_entry) (written : Bool) :
    Result (Option (List UInt8)) :=
  if d.responder.cache_dir = [] then .ok none
  else do
    let file ← Cache.save_as (String.ofList (responder.cache_file d.responder.cache_dir)) written ents
    .ok (some file)

/-- The first cache of a responder that finds the file. -/
theorem initial_cache_of_file {file : List UInt8} (hdir : params.cachedir ≠ [])
    (hfile : x.binaries (responder.cache_file params.cachedir) = some file) {c : Cache}
    (h : responder.initial_cache x params = .ok c) :
    (∃ c₀, Cache.load (String.ofList (responder.cache_file params.cachedir)) x.stack (some file)
      params.min_ttl = .ok c₀ ∧ c = c₀.collect_garbage x.tnow) ∨
    (∃ e, Cache.load (String.ofList (responder.cache_file params.cachedir)) x.stack (some file)
      params.min_ttl = .error e) ∧ c = Cache.empty params.min_ttl := by
  unfold responder.initial_cache at h
  rw [if_pos hdir] at h
  dsimp only at h
  rw [hfile] at h
  split at h
  · next c₀ hc₀ => exact Or.inl ⟨c₀, hc₀, (Except.ok.inj h).symm⟩
  · next e he =>
    rw [if_pos ((Cache.load_loads _ _ _ _).throws e he)] at h
    exact Or.inr ⟨⟨e, he⟩, (Except.ok.inj h).symm⟩

/-- What is written into the file. -/
theorem finish_file {ents : List cache_entry} {file : List UInt8}
    (h : d.finish ents true = .ok (some file)) : file = Cache.file_bytes ents := by
  unfold finish at h
  split_ifs at h
  · exact absurd (Except.ok.inj h) (by simp)
  · obtain ⟨file', hsave, h⟩ := Result.bind_eq_ok.mp h
    rw [← Option.some.inj (Except.ok.inj h)]
    exact Cache.eq_of_save_as hsave

/-- **A restart.** A daemon is made, from whatever files, and lives for any events. The file of its
cache is written when it ends, and another daemon is made that finds this file. If every entry of
the old cache has a name, the new daemon answers every question from its cache, from then on, as the
old one would have. If one has none, the new daemon starts with an empty cache. -/
theorem restart (hmade : Made x params d₀) (hrun : d₀.run es = .ok (d, out)) (hclock : InClock es)
    {ents : List cache_entry} (hents : ents.Perm d.responder.cache.entries.elems)
    (hsize : ents.length < 2 ^ 64) {file : List UInt8}
    (hfinish : d.finish ents true = .ok (some file)) (hdir : params'.cachedir ≠ [])
    (hfile : x'.binaries (responder.cache_file params'.cachedir) = some file)
    (hmade' : Made x' params' d') :
    ((∀ e ∈ d.responder.cache.entries.elems, e.first ≠ []) → ∀ q t, x'.tnow ≤ t →
      d'.responder.cache.retrieve t q = d.responder.cache.retrieve t q) ∧
    ((∃ e ∈ d.responder.cache.entries.elems, e.first = []) →
      d'.responder.cache = Cache.empty params'.min_ttl) := by
  obtain ⟨hfirst, -⟩ := hmade.cache
  have hfits := run_fits hmade.started.fresh (responder.initial_cache_fits hfirst) hclock hrun
  have hfits' : ∀ e ∈ ents, Cache.Fits e := fun e he => hfits e (hents.mem_iff.mp he)
  obtain ⟨hcache, -⟩ := hmade'.cache
  have hcases := initial_cache_of_file hdir hfile hcache
  rw [finish_file hfinish] at hcases
  refine ⟨?_, ?_⟩
  · intro hnames q t ht
    have hnodup : (ents.map cache_entry.key).Nodup :=
      ((hents.map cache_entry.key).nodup_iff).mpr d.responder.cache.entries.nodup
    obtain ⟨c, hload, helems⟩ := Cache.load_save hfits' hnodup hsize
      (fun e he => hnames e (hents.mem_iff.mp he))
      (String.ofList (responder.cache_file params'.cachedir)) x'.stack params'.min_ttl
    rcases hcases with ⟨c₀, hc₀, hd'⟩ | ⟨⟨e, he⟩, -⟩
    · obtain rfl := Except.ok.inj (hload.symm.trans hc₀)
      apply Cache.retrieve_of_live ht
      intro k
      -- the entries that were loaded are those that were saved
      have hsame : c.entries.lookup k = d.responder.cache.entries.lookup k := by
        apply Option.ext
        intro e
        rw [KeyedSet.lookup_eq_some, KeyedSet.lookup_eq_some, helems, hents.mem_iff]
      rw [hd', ← hsame]
      exact KeyedSet.lookup_filter _ _ _
    · exact absurd (hload.symm.trans he) (by simp)
  · rintro ⟨e, he, hnil⟩
    rcases hcases with ⟨c₀, hc₀, -⟩ | ⟨-, hd'⟩
    · exact absurd ⟨c₀, hc₀⟩ (Cache.load_save_nameless hfits' hsize (hents.mem_iff.mpr he) hnil _ _ _)
    · exact hd'

end daemon

/-! ### A life with one answer -/

/-- A hosts file with one name, and a file of the cache. -/
def sampleStartup (file : Option (List UInt8)) : Startup where
  reading := ⟨⟨responder.sampleHostsInet, fun _ => some "1.2.3.4 a\n".toList,
    Lib.Unordered.Placement.front Str⟩, sampleListing, cresponder.sampleArgs.draw⟩
  binaries := fun _ => file
  stack := []
  tnow := 0
  S := Sodium.tagged

/-- Parameters that name the hosts file and a directory for the cache. -/
def sampleStart : start_parameters :=
  { responder.sampleParameters with cachedir := "c".toList, min_ttl := 60 }

/-- A question that the hosts file answers. -/
def sampleHostsDatagram : daemon_event :=
  .datagram { sampleEnv with net := responder.sampleHostsInet }
    (some [0, 1, 1, 0, 0, 1, 0, 0, 0, 0, 0, 0, 1, 97, 0, 0, 1, 0, 1]) sampleProvider.address

theorem sample_life : ∃ d₀ d out, daemon.make (sampleStartup none) sampleStart = .ok d₀ ∧
    d₀.run [sampleHostsDatagram] = .ok (d, out) ∧ d.responder.cache_dir = "c".toList ∧
    d.responder.cache.entries.elems.map cache_entry.first = ["a.".toList] := by
  exact ⟨_, _, _, rfl, rfl, rfl, rfl⟩

theorem sample_starts (file : Option (List UInt8)) :
    ∃ d, daemon.make (sampleStartup file) sampleStart = .ok d := by
  have hcache : ∃ c, responder.initial_cache (sampleStartup file) sampleStart = .ok c := by
    unfold responder.initial_cache
    rw [if_pos (by decide)]
    dsimp only
    split
    · exact ⟨_, rfl⟩
    · next e he =>
      rw [if_pos ((Cache.load_loads _ _ _ _).throws e he)]
      exact ⟨_, rfl⟩
  obtain ⟨c, hc⟩ := hcache
  unfold daemon.make responder.make
  rw [hc]
  exact ⟨_, rfl⟩

/-- The answer is there after a restart. -/
theorem daemon.restart_sample : ∃ d₀ d out file d',
    daemon.make (sampleStartup none) sampleStart = .ok d₀ ∧
    d₀.run [sampleHostsDatagram] = .ok (d, out) ∧
    d.responder.cache.entries.elems.map cache_entry.first = ["a.".toList] ∧
    d.finish d.responder.cache.entries.elems true = .ok (some file) ∧
    daemon.make (sampleStartup (some file)) sampleStart = .ok d' ∧
    ∀ q t, 0 ≤ t → d'.responder.cache.retrieve t q = d.responder.cache.retrieve t q := by
  obtain ⟨d₀, d, out, hmake, hrun, hdir, hnames⟩ := sample_life
  have hfinish : d.finish d.responder.cache.entries.elems true =
      .ok (some (Cache.file_bytes d.responder.cache.entries.elems)) := by
    unfold finish
    rw [if_neg (by rw [hdir]; decide)]
    rfl
  obtain ⟨d', hmake'⟩ := sample_starts (some (Cache.file_bytes d.responder.cache.entries.elems))
  refine ⟨d₀, d, out, _, d', hmake, hrun, hnames, hfinish, hmake', ?_⟩
  have hlen : d.responder.cache.entries.elems.length = 1 := by
    rw [← List.length_map (f := cache_entry.first), hnames]
    rfl
  refine (daemon.restart (Or.inl hmake) hrun ?_ (List.Perm.refl _) (by rw [hlen]; norm_num) hfinish
    (by decide) rfl (Or.inl hmake')).1 ?_
  · intro e he env henv
    rw [List.mem_singleton.mp he] at henv
    rw [← Option.some.inj henv]
    exact ⟨by decide, by decide⟩
  · intro e he hnil
    have hmem : e.first ∈ d.responder.cache.entries.elems.map cache_entry.first :=
      List.mem_map_of_mem he
    rw [hnames, hnil, List.mem_singleton] at hmem
    exact absurd hmem (by decide)

end Cdns
