/-
Whom the daemon encrypts to.

A DNSCrypt resolver has the key of its provider from the list of resolvers, and it gets the key of
the server from a certificate. A certifier asks for the certificates in plain text, so anybody can
answer. Whatever is answered, the resolver of a certifier changes in two ways only (`step_resolver`):
it forgets that it is ready, or it adopts a certificate that came in a packet while the request
waited and that carries a signature of the provider.

In a daemon, requests under way share their resolver with the certifier, certifiers come and go with
the lists, and a request may outlive its certifier. In all of its runs, every request to a DNSCrypt
provider encrypts to a key that a certificate has which is signed by the provider listed under the
address that the request goes to, and no message is sent in plain text while there is a DNSCrypt
provider in the table, except one for an onion address (`encrypts_certified`).
-/
import Cdns.CertificateChoice
import Cdns.DaemonAnswers

set_option autoImplicit false

namespace Cdns

open Lib.Machine Lib.Keyed

/-! ## Certifiers -/

namespace certifier_state

/-- The request of a certifier has a question without answers, and none once it was sent. -/
structure Proper (s : certifier_state) : Prop where
  sending : ∀ r, s.upstream_ = some r → r.stage = .sending → r.question.query.header.ancount = 0
  receiving : ∀ r, s.upstream_ = some r → r.stage = .receiving → r.question.query.size = 0

/-- A packet comes to the certifier while its request waits for it. -/
def Receives (s : certifier_state) (io : Io) (packet : Query) : Prop :=
  ∃ r, s.upstream_ = some r ∧ r.stage = .receiving ∧
    io.receive s.certifier.tcp_only r.question.query = .ok packet

/-- The event brings the certificate `c`, signed by the provider with the key `pk`. -/
def Certifies (s : certifier_state) (e : certifier_event) (pk : pubkey) (c : certificate) : Prop :=
  ∃ S now pending jitter io packet txt raw, e = .ready S now pending jitter io ∧
    s.Receives io packet ∧ packet.get_txt_answer = .ok txt ∧ raw ∈ txt ∧
    certificate.make S now pk raw = .ok c

theorem Proper.of_none {s : certifier_state} (h : s.upstream_ = none) : s.Proper := by
  refine ⟨?_, ?_⟩
  all_goals
    intro r hr
    rw [h] at hr
    exact absurd hr (by simp)

/-- A state with the same request. -/
theorem Proper.congr {s s' : certifier_state} (h : s.Proper) (hreq : s'.upstream_ = s.upstream_) :
    s'.Proper := by
  refine ⟨?_, ?_⟩
  · intro r hr
    rw [hreq] at hr
    exact h.sending r hr
  · intro r hr
    rw [hreq] at hr
    exact h.receiving r hr

/-- `update` leaves the resolver and the address alone, and makes a request with a question. -/
theorem update_proper (a : attempt) {s : certifier_state} (h : s.Proper) :
    (s.update a).1.Proper ∧ (s.update a).1.certifier.address = s.certifier.address ∧
      (s.update a).1.certifier.resolver = s.certifier.resolver := by
  have hcatch : ∀ {s : certifier_state} (e : Exn), s.Proper → (s.update_catch a e).1.Proper ∧
      (s.update_catch a e).1.certifier.address = s.certifier.address ∧
      (s.update_catch a e).1.certifier.resolver = s.certifier.resolver := by
    intro s e hs
    unfold update_catch
    split_ifs
    · exact ⟨.of_none rfl, certifier.reschedule_query_after_failure_address _ _,
        certifier.reschedule_query_after_failure_resolver _ _⟩
    · exact ⟨hs, rfl, rfl⟩
  unfold update
  split_ifs
  · exact ⟨h, rfl, rfl⟩
  · exact ⟨.of_none rfl, rfl, rfl⟩
  · split
    · exact hcatch _ h
    · next q hq =>
      dsimp only
      split
      · exact hcatch _ (.of_none rfl)
      · obtain ⟨-, -, -, hheader⟩ := Query.of_hostname_wire hq
        refine ⟨⟨?_, ?_⟩, rfl, rfl⟩
        · intro r hr _
          rw [← Option.some.inj hr]
          show q.header.ancount = 0
          rw [hheader (by omega)]
          rfl
        · intro r hr hs
          rw [← Option.some.inj hr] at hs
          exact absurd hs (by simp)

/-- A message without answers has no texts. -/
theorem get_txt_answer_of_none {q : Query} {txt : List (List UInt8)} (h : q.header.ancount = 0)
    (htxt : q.get_txt_answer = .ok txt) : txt = [] := by
  obtain ⟨data, hdata, htxt⟩ := Result.bind_eq_ok.mp htxt
  obtain ⟨⟨off, _⟩, -, hdata⟩ := Result.bind_eq_ok.mp hdata
  dsimp only at hdata
  rw [h] at hdata
  obtain ⟨⟨_, result⟩, hresult, hdata⟩ := Result.bind_eq_ok.mp hdata
  obtain ⟨-, rfl⟩ := Prod.mk.inj (Except.ok.inj hresult)
  obtain rfl := Except.ok.inj hdata
  exact (Except.ok.inj htxt).symm

/-- **What an answer does to the resolver**: it forgets that it is ready, or it adopts one of the
certificates in the answer that the provider has signed. The address stays. -/
theorem process_response_cases {S : Sodium} {now : ℕ} {pending : Bool} {jitter : ℕ}
    {c c' : Cdns.certifier} {q : Query} (h : c.process_response S now pending jitter q = .ok c') :
    c'.address = c.address ∧ ∃ txt, q.get_txt_answer = .ok txt ∧
      (c'.resolver = { c.resolver with ready_ := false } ∨
        ∃ raw ∈ txt, ∃ cert, certificate.make S now c.resolver.pubkey_ raw = .ok cert ∧
          c'.resolver = c.resolver.adopt cert) := by
  obtain ⟨-, -, h⟩ := Result.bind_eq_ok.mp h
  obtain ⟨txt, htxt, h⟩ := Result.bind_eq_ok.mp h
  split at h
  · exact absurd h (by simp)
  · next found r hfind =>
    have hkept : c'.address = c.address ∧ c'.resolver = r := by
      rw [← Except.ok.inj h]
      split_ifs
      · rw [certifier.reschedule_query_after_success_address,
          certifier.reschedule_query_after_success_resolver]
        exact ⟨rfl, rfl⟩
      · rw [certifier.reschedule_query_after_failure_address,
          certifier.reschedule_query_after_failure_resolver]
        exact ⟨rfl, rfl⟩
    obtain ⟨haddress, hr⟩ := hkept
    refine ⟨haddress, txt, htxt, ?_⟩
    rcases resolver.find_valid_certificate_cases S now c.ephemeral txt with
      ⟨-, hcase⟩ | ⟨cert, hmax, hcase⟩
    · obtain ⟨-, rfl⟩ := Prod.mk.inj (Except.ok.inj (hfind.symm.trans hcase))
      exact Or.inl hr
    · obtain ⟨-, rfl⟩ := Prod.mk.inj (Except.ok.inj (hfind.symm.trans hcase))
      obtain ⟨raw, hraw, hmake⟩ := resolver.mem_valid.mp hmax.mem
      exact Or.inr ⟨raw, hraw, cert, hmake, hr⟩

/-- A certificate is asked for in plain text. -/
theorem fold_copy (S : Sodium) (c : Cdns.certifier) (io : Io) (m : Message) :
    c.provider_copy.fold S io m = .ok m := rfl

/-- The message that the callback of a request passes on: the packet, or a question without
answers. -/
theorem callback_passes {s : certifier_state} {S : Sodium} {io : Io} {r : request} {m : Message}
    (hs : s.Proper) (hr : s.upstream_ = some r) (h : s.callback .ok S io r = .ok (.over (some m))) :
    s.Receives io m.query ∨ m.query.header.ancount = 0 := by
  unfold callback at h
  split at h
  · next hstage =>
    obtain ⟨h, -⟩ := on_send_spec h
    -- a failure to send
    have hfail : ∀ {x : Message}, network_upstream.pass_failure_downstream .ok x =
        .ok (.over (some m)) → m = x.mark_servfail := by
      intro x hx
      unfold network_upstream.pass_failure_downstream at hx
      split_ifs at hx
      · exact (Option.some.inj (progress.over.inj (Except.ok.inj hx))).symm
      · exact absurd (progress.over.inj (Except.ok.inj hx)) (by simp)
    have hm : m = r.question.mark_servfail := by
      unfold network_upstream.on_send at h
      split at h
      · exact absurd (Except.ok.inj h) (by simp)
      · exact hfail h
      · split_ifs at h
        · rw [fold_copy, Result.ok_bind] at h
          split at h
          · exact hfail h
          · exact absurd h (by simp)
          · exact absurd (Except.ok.inj h) (by simp)
        · exact absurd (Except.ok.inj h) (by simp)
    right
    have hheader := Query.mark_header r.question.query .servfail
    have hcount := congrArg message_header.ancount hheader
    rw [hm]
    exact hcount.trans (hs.sending r hr hstage)
  · next hstage =>
    left
    rcases network_upstream.on_receive_cases (hs.receiving r hr hstage) h with
      hnext | hnext | ⟨q, m', a, -, hq, hunfold, hpass, hnext⟩
    · exact absurd hnext (by simp)
    · exact absurd (progress.over.inj hnext) (by simp)
    · obtain rfl := Option.some.inj (progress.over.inj hnext)
      obtain rfl := Except.ok.inj hpass
      obtain rfl := Except.ok.inj hunfold
      exact ⟨r, hr, hstage, hq⟩
  · exact absurd (Except.ok.inj h) (by simp)
  · exact absurd (progress.over.inj (Except.ok.inj h)) (by simp)

/-- A request that has stopped neither sends nor receives. -/
theorem stopped_proper {s : certifier_state} (q : Message) :
    ({ s with upstream_ := some ⟨.stopped, q⟩ } : certifier_state).Proper := by
  refine ⟨?_, ?_⟩
  all_goals
    intro r hr hst
    rw [← Option.some.inj hr] at hst
    exact absurd hst (by simp)

/-- A request that goes on has its question, or has sent it. -/
theorem callback_proper {s : certifier_state} {S : Sodium} {io : Io} {r : request} {st : stage}
    {q : Message} (hs : s.Proper) (hr : s.upstream_ = some r)
    (h : s.callback .ok S io r = .ok (.going st q)) :
    ({ s with upstream_ := some ⟨st, q⟩ } : certifier_state).Proper := by
  unfold callback at h
  split at h
  · next hstage =>
    rcases network_upstream.on_send_cases (on_send_spec h).1 with hnext | ⟨m, hm, hnext⟩ |
      ⟨-, hnext⟩ | hnext | ⟨m, a, -, hnext⟩
    · obtain ⟨rfl, rfl⟩ := progress.going.inj hnext
      refine ⟨?_, ?_⟩
      · intro r' hr' _
        rw [← Option.some.inj hr']
        exact hs.sending r hr hstage
      · intro r' hr' hst
        rw [← Option.some.inj hr'] at hst
        exact absurd hst (by simp)
    · obtain ⟨rfl, rfl⟩ := progress.going.inj hnext
      refine ⟨?_, ?_⟩
      · intro r' hr' hst
        rw [← Option.some.inj hr'] at hst
        exact absurd hst (by simp)
      · intro r' hr' _
        rw [← Option.some.inj hr']
        exact hm
    · obtain ⟨rfl, rfl⟩ := progress.going.inj hnext
      exact stopped_proper r.question
    · exact absurd hnext (by simp)
    · exact absurd hnext (by simp)
  · next hstage =>
    rcases network_upstream.on_receive_progress h with hnext | ⟨passed, hnext⟩
    · obtain ⟨rfl, rfl⟩ := progress.going.inj hnext
      refine ⟨?_, ?_⟩
      · intro r' hr' hst
        rw [← Option.some.inj hr'] at hst
        exact absurd hst (by simp)
      · intro r' hr' _
        rw [← Option.some.inj hr']
        exact hs.receiving r hr hstage
    · exact absurd hnext (by simp)
  · obtain ⟨rfl, rfl⟩ := progress.going.inj (Except.ok.inj h)
    exact stopped_proper r.question
  · exact absurd h (by simp)

theorem close_proper {s : certifier_state} (r : request) : (s.close r).Proper := by
  refine ⟨?_, ?_⟩
  all_goals
    intro r' hr' hst
    rw [← Option.some.inj hr'] at hst
    exact absurd hst (by simp)

/-- **What the callback of the request does to the resolver**, and not to the address. -/
theorem on_ready_resolver {S : Sodium} {now : ℕ} {pending : Bool} {jitter : ℕ} {io : Io}
    {s s' : certifier_state} (hs : s.Proper) (h : s.on_ready S now pending jitter io = .ok s') :
    s'.Proper ∧ s'.certifier.address = s.certifier.address ∧
      (s'.certifier.resolver = s.certifier.resolver ∨
      s'.certifier.resolver = { s.certifier.resolver with ready_ := false } ∨
      ∃ c, s.Certifies (.ready S now pending jitter io) s.certifier.resolver.pubkey_ c ∧
        s'.certifier.resolver = s.certifier.resolver.adopt c) := by
  unfold on_ready at h
  split at h
  · rw [← Except.ok.inj h]
    exact ⟨hs, rfl, Or.inl rfl⟩
  next r hr =>
  split_ifs at h
  · obtain ⟨next, hnext, h⟩ := Result.bind_eq_ok.mp h
    obtain ⟨passed, hpassed, hnext⟩ := callback_forward hnext
    match passed with
    | .going st q =>
        rw [← Except.ok.inj hnext] at h
        dsimp only at h
        rw [← Except.ok.inj h]
        exact ⟨callback_proper hs hr hpassed, rfl, Or.inl rfl⟩
    | .over none =>
        rw [← Except.ok.inj hnext] at h
        dsimp only at h
        rw [← Except.ok.inj h]
        exact ⟨close_proper r, rfl, Or.inl rfl⟩
    | .over (some m) =>
        obtain ⟨c, hc, hnext⟩ := Result.bind_eq_ok.mp hnext
        rw [← Except.ok.inj hnext] at h
        dsimp only at h
        rw [← Except.ok.inj h]
        refine ⟨.of_none rfl, (process_response_cases hc).1, Or.inr ?_⟩
        obtain ⟨-, txt, htxt, hforgets | ⟨raw, hraw, cert, hmake, hadopts⟩⟩ :=
          process_response_cases hc
        · exact Or.inl hforgets
        · rcases callback_passes hs hr hpassed with hrecv | hnone
          · exact Or.inr ⟨cert, ⟨S, now, pending, jitter, io, m.query, txt, raw, rfl, hrecv, htxt,
              hraw, hmake⟩, hadopts⟩
          · rw [get_txt_answer_of_none hnone htxt] at hraw
            exact absurd hraw List.not_mem_nil
  · rw [← Except.ok.inj h]
    exact ⟨hs, rfl, Or.inl rfl⟩

/-- **What an event does to the resolver of a certifier**: nothing, or the resolver forgets that it
is ready, or it adopts a certificate that came in a packet and that its provider has signed. The
address of the certifier stays. -/
theorem step_resolver {s s' : certifier_state} {e : certifier_event} (hs : s.Proper)
    (h : s.step e = .ok s') :
    s'.Proper ∧ s'.certifier.address = s.certifier.address ∧
      (s'.certifier.resolver = s.certifier.resolver ∨
      s'.certifier.resolver = { s.certifier.resolver with ready_ := false } ∨
      ∃ c, s.Certifies e s.certifier.resolver.pubkey_ c ∧
        s'.certifier.resolver = s.certifier.resolver.adopt c) := by
  cases e with
  | start a =>
      rw [start_eq h]
      obtain ⟨hproper, haddress, hres⟩ := update_proper a hs
      exact ⟨hproper, haddress, Or.inl hres⟩
  | stop =>
      rw [← Except.ok.inj h]
      exact ⟨hs.congr rfl, rfl, Or.inl rfl⟩
  | retry_timer a =>
      by_cases hon : s.timer_active = true
      · rw [retry_timer_callback_eq hon h]
        obtain ⟨hproper, haddress, hres⟩ := update_proper a hs
        exact ⟨hproper, haddress, Or.inl hres⟩
      · have h' : s.retry_timer_callback a = .ok s' := h
        rw [retry_timer_callback, if_neg hon] at h'
        rw [← Except.ok.inj h']
        exact ⟨hs, rfl, Or.inl rfl⟩
  | ready S now pending jitter io => exact on_ready_resolver hs h
  | timeout =>
      rw [← Except.ok.inj h, on_timeout]
      split
      · exact ⟨hs, rfl, Or.inl rfl⟩
      · split_ifs
        · exact ⟨close_proper _, rfl, Or.inl rfl⟩
        · exact ⟨hs, rfl, Or.inl rfl⟩

end certifier_state

/-! ## Plain providers -/

namespace responder

/-- The providers from the files have no resolver. -/
structure Plain (r : responder) : Prop where
  dns_providers : ∀ p ∈ r.dns_providers, p.resolver = none
  onion : ∀ p, r.onion_provider = some p → p.resolver = none

theorem from_file_loop_plain (net : Inet) (noipv6 : Bool) (p : proto) (n : ℕ) :
    ∀ {f : Str} {result result' : List provider},
      from_file_loop net noipv6 p n f result = .ok result' →
      (∀ x ∈ result, x.resolver = none) → ∀ x ∈ result', x.resolver = none := by
  have hadd : ∀ {word : Str} {result result' : List provider},
      add_provider net noipv6 p result word = .ok result' →
      (∀ x ∈ result, x.resolver = none) → ∀ x ∈ result', x.resolver = none := by
    intro word result result' h hresult x hx
    obtain ⟨addr, -, h⟩ := Result.bind_eq_ok.mp h
    rw [← Except.ok.inj h] at hx
    split_ifs at hx
    · rcases List.mem_append.mp hx with hx | hx
      · exact hresult x hx
      · rw [List.mem_singleton.mp hx]
    · exact hresult x hx
  induction n with
  | zero =>
      intro f result result' h hresult
      rw [← Except.ok.inj h]
      exact hresult
  | succ n ih =>
      intro f result result' h hresult
      rw [from_file_loop] at h
      split at h
      · rw [← Except.ok.inj h]
        exact hresult
      · split_ifs at h
        · exact ih h hresult
        · split at h
          · rw [← Except.ok.inj h]
            exact hresult
          · split_ifs at h
            · rw [← Except.ok.inj h]
              exact hresult
            · obtain ⟨added, hadded, h⟩ := Result.bind_eq_ok.mp h
              exact ih h (hadd hadded hresult)
        · obtain ⟨added, hadded, h⟩ := Result.bind_eq_ok.mp h
          exact ih h (hadd hadded hresult)

theorem reload_plain {disk : Disk} {params : responder_parameters} {r r' : responder}
    (hr : r.Plain) (h : r.reload disk params = (r', none)) : r'.Plain := by
  refine ⟨?_, ?_⟩
  · have hproviders := reload_dns_providers disk params r
    rw [h] at hproviders
    rw [hproviders]
    unfold resolvers_after
    split
    · next rslvs hrslvs =>
      exact from_file_loop_plain _ _ _ _ hrslvs fun x hx => absurd hx List.not_mem_nil
    · exact hr.dns_providers
  · rw [reload_eq] at h
    obtain ⟨_, _, -, hc⟩ | ⟨_, _, _, -, -, hc⟩ | ⟨_, _, _, -, -, -, hc⟩ | ⟨_, _, _, _, -, -, -, -, hc⟩ |
      ⟨_, _, onion, _, -, -, ho, -, hc⟩ := reload_rest_cases disk params
        { r with dns_providers := r.resolvers_after disk params }
    case inr.inr.inr.inr =>
      obtain ⟨rfl, -⟩ := Prod.mk.inj (h.symm.trans hc)
      intro p hp
      unfold onion_of at ho
      split_ifs at ho
      · obtain ⟨addr, -, ho⟩ := Result.bind_eq_ok.mp ho
        rw [← Except.ok.inj ho] at hp
        rw [← Option.some.inj hp]
      · rw [← Except.ok.inj ho] at hp
        exact absurd hp (by simp)
    all_goals exact absurd (Prod.mk.inj (h.symm.trans hc)).2 (by simp)

/-- Storing an answer keeps the providers. -/
theorem store_providers {env : Env} {r r' : responder} {m : Query} (h : r.store env m = .ok r') :
    r'.dns_providers = r.dns_providers ∧ r'.onion_provider = r.onion_provider := by
  obtain ⟨c, -, h⟩ := Result.bind_eq_ok.mp h
  split_ifs at h
  rw [← Except.ok.inj h]
  exact ⟨rfl, rfl⟩

theorem process_plain {env : Env} {r r' : responder} {p : proto} {q : Query} {o : outcome}
    (hr : r.Plain) (h : r.process env ⟨p, .of_query q⟩ = .ok (r', o)) : r'.Plain := by
  rcases process_cases h with ⟨m, -, hdeals⟩ | ⟨s, answer, -, -, rfl, -⟩
  · cases hdeals with
    | hosts _ _ _ hstored =>
        obtain ⟨h₁, h₂⟩ := store_providers hstored
        exact ⟨by rw [h₁]; exact hr.dns_providers, by rw [h₂]; exact hr.onion⟩
    | dropped _ => exact hr
    | refused => exact ⟨hr.dns_providers, hr.onion⟩
    | cached _ _ _ => exact ⟨hr.dns_providers, hr.onion⟩
    | failed _ => exact ⟨hr.dns_providers, hr.onion⟩
    | forwarded _ _ => exact ⟨hr.dns_providers, hr.onion⟩
  · exact hr

theorem pass_answer_downstream_plain {env : Env} {r r' : responder} {inptr : incoming}
    {m : Message} {bytes : List UInt8} (hr : r.Plain)
    (h : r.pass_answer_downstream env inptr m = .ok (r', bytes)) : r'.Plain := by
  obtain ⟨-, -, h⟩ := Result.bind_eq_ok.mp h
  obtain ⟨r₁, hr₁, h⟩ := Result.bind_eq_ok.mp h
  obtain ⟨b, -, h⟩ := Result.bind_eq_ok.mp h
  obtain ⟨rfl, -⟩ := Prod.mk.inj (Except.ok.inj h)
  unfold store_answer at hr₁
  split_ifs at hr₁
  · obtain ⟨h₁, h₂⟩ := store_providers hr₁
    exact ⟨by rw [h₁]; exact hr.dns_providers, by rw [h₂]; exact hr.onion⟩
  · rw [← Except.ok.inj hr₁]
    exact hr

/-- **Whom a message is sent to**: an onion address to its provider, and any other to a plain
provider only if there is no DNSCrypt provider, else to one of these. -/
theorem random_provider_cases {env : Env} {r : responder} {q : Query} {p : provider}
    (h : r.random_provider env q = .ok (some p)) :
    (r.zone_provider q = .ok (some p) ∧ r.onion_provider = some p) ∨
      (p ∈ r.dns_providers ∧ ∀ c, r.crypt = some c → c.dnscrypt_providers = []) ∨
      ∃ c, r.crypt = some c ∧ c.dnscrypt_providers ≠ [] ∧
        random_dnscrypt_provider env c.dnscrypt_providers = some p := by
  have hdns : r.random_dns_provider env = .ok (some p) → p ∈ r.dns_providers := by
    intro hp
    unfold random_dns_provider at hp
    split_ifs at hp
    · exact absurd (Except.ok.inj hp) (by simp)
    · split at hp
      · exact absurd hp (by simp)
      · next x hx =>
        obtain rfl := Option.some.inj (Except.ok.inj hp)
        exact List.mem_of_getElem? hx
  obtain ⟨zone, hzone, h⟩ := Result.bind_eq_ok.mp h
  split at h
  · next x =>
    obtain rfl := Option.some.inj (Except.ok.inj h)
    refine Or.inl ⟨hzone, ?_⟩
    unfold zone_provider at hzone
    split at hzone
    · exact absurd hzone (by simp)
    · next y hy =>
      obtain ⟨owner, -, hzone⟩ := Result.bind_eq_ok.mp hzone
      have hif := Except.ok.inj hzone
      split_ifs at hif
      rw [hy, hif]
  · split at h
    · next c hc =>
      split_ifs at h with hnil
      · refine Or.inr (Or.inl ⟨hdns h, ?_⟩)
        intro c' hc'
        rw [hc] at hc'
        rw [← Option.some.inj hc']
        exact hnil
      · exact Or.inr (Or.inr ⟨c, hc, hnil, Except.ok.inj h⟩)
    · next hc =>
      refine Or.inr (Or.inl ⟨hdns h, ?_⟩)
      intro c' hc'
      rw [hc] at hc'
      exact absurd hc' (by simp)

end responder

/-! ## Certified resolvers -/

/-- The resolver has the keys, the magic and the cipher of a certificate. -/
structure resolver.Adopts (r : resolver) (c : certificate) : Prop where
  key : r.resolver_pubkey_ = c.server_publickey
  magic : r.dnscrypt_magic_query_ = c.magic_query
  client_key : r.dnscrypt_client_.publickey = c.server_publickey
  client_magic : r.dnscrypt_client_.magic_query = c.magic_query
  client_cipher : r.dnscrypt_client_.cipher = c.cipher

/-- A step of a request changes its resolver as the moment says. -/
theorem upstream.step_provider {u u' : upstream} {t : moment}
    {passed : Option (responder × List UInt8)} (h : u.step t = .ok (u', passed)) :
    u'.provider = u.provider.renew t.renewed := by
  unfold upstream.step at h
  dsimp only at h
  split at h
  · obtain ⟨rfl, -⟩ := Prod.mk.inj (Except.ok.inj h)
    rfl
  · obtain ⟨next, -, h⟩ := Result.bind_eq_ok.mp h
    rcases next with ⟨s, q⟩ | passed'
    · obtain ⟨rfl, -⟩ := Prod.mk.inj (Except.ok.inj h)
      rfl
    · obtain ⟨rfl, -⟩ := Prod.mk.inj (Except.ok.inj h)
      rfl

namespace daemon

variable {d d' d₀ : daemon} {e : daemon_event} {es past : List daemon_event}
  {out : List daemon_output} {k : Str} {a : Cdns.address}

/-- The provider at the address `a` has the key `pk`: so says an entry of the table that the daemon
began with, or of a list that was loaded during the run. The text of the address is `k`. -/
def Listed (d₀ : daemon) (es : List daemon_event) (k : Str) (a : Cdns.address) (pk : pubkey) :
    Prop :=
  (∃ s, d₀.certifiers.lookup k = some s ∧ s.state.certifier.address = a ∧
    s.state.certifier.resolver.pubkey_ = pk) ∨
    ∃ d reading new rs r, Takes d₀ es d (.reload reading) new ∧
      parse_resolvers_list reading.lib d.dnscrypt_resolvers_file
        (reading.disk.files d.dnscrypt_resolvers_file) d.options.net_proto = .ok rs ∧
      r ∈ rs ∧ r.address.ip_port reading.lib.net = k ∧ r.address = a ∧ r.public_key = pk

/-- **The keys of the resolver come from a certificate of the provider at the address `a`**: it
came in a packet for the certifier of that address, at an event of the run, with a signature of
the provider that was listed there. -/
def Certified (d₀ : daemon) (es : List daemon_event) (k : Str) (a : Cdns.address)
    (r : Cdns.resolver) : Prop :=
  Listed d₀ es k a r.pubkey_ ∧ ∃ d e new s c, Takes d₀ es d (.certifier k e) new ∧
    d.certifiers.lookup k = some s ∧ s.state.certifier.address = a ∧
    s.state.Certifies e r.pubkey_ c ∧ r.Adopts c

theorem Listed.append {pk : pubkey} (h : Listed d₀ es k a pk) (es' : List daemon_event) :
    Listed d₀ (es ++ es') k a pk := by
  rcases h with h | ⟨d, reading, new, rs, r, htakes, hrest⟩
  · exact Or.inl h
  · exact Or.inr ⟨d, reading, new, rs, r, htakes.append es', hrest⟩

theorem Certified.append {r : Cdns.resolver} (h : Certified d₀ es k a r)
    (es' : List daemon_event) : Certified d₀ (es ++ es') k a r := by
  obtain ⟨hlisted, d, e, new, s, c, htakes, hrest⟩ := h
  exact ⟨hlisted.append es', d, e, new, s, c, htakes.append es', hrest⟩

/-- Being ready is no part of it. -/
theorem Certified.forget {r : Cdns.resolver} (h : Certified d₀ es k a r) :
    Certified d₀ es k a { r with ready_ := false } := by
  obtain ⟨hlisted, d, e, new, s, c, htakes, hs, ha, hcert, hadopts⟩ := h
  exact ⟨hlisted, d, e, new, s, c, htakes, hs, ha, hcert,
    ⟨hadopts.key, hadopts.magic, hadopts.client_key, hadopts.client_magic, hadopts.client_cipher⟩⟩

/-! ## The invariant -/

/-- What holds of the certifier under an address. -/
structure SlotOk (d₀ : daemon) (past : List daemon_event) (d : daemon) (k : Str) (s : slot) :
    Prop where
  proper : s.state.Proper
  generation : s.generation ≤ d.generation
  listed : Listed d₀ past k s.state.certifier.address s.state.certifier.resolver.pubkey_
  ready : s.state.certifier.resolver.ready_ = true →
    Certified d₀ past k s.state.certifier.address s.state.certifier.resolver

/-- The certifier has the provider at the address `a`, and its resolver is certified for that. -/
structure Shared (d₀ : daemon) (past : List daemon_event) (k : Str) (a : Cdns.address) (s : slot) :
    Prop where
  address : s.state.certifier.address = a
  certified : Certified d₀ past k a s.state.certifier.resolver

/-- What holds of a request to a provider: its resolver is certified for the address that it goes
to, and so is that of its certifier, as long as this one is in the table. -/
structure TaskOk (d₀ : daemon) (past : List daemon_event) (d : daemon) (t : task) : Prop where
  resolver : ∀ r, t.upstream.provider.resolver = some r →
    ∃ k g, t.certifier = some (k, g) ∧ Certified d₀ past k t.upstream.provider.address r
  certifier : ∀ k g, t.certifier = some (k, g) → g ≤ d.generation ∧
    ∀ s, d.certifiers.lookup k = some s → s.generation = g →
      Shared d₀ past k t.upstream.provider.address s

/-- **The invariant**: every resolver that is used is certified. -/
structure Trusts (d₀ : daemon) (past : List daemon_event) (d : daemon) : Prop where
  plain : d.responder.Plain
  slots : ∀ k s, d.certifiers.lookup k = some s → SlotOk d₀ past d k s
  tasks : ∀ t, some t ∈ d.upstream_requests → TaskOk d₀ past d t

/-- The daemon before its first event: its certifiers are new. -/
structure Started (d : daemon) : Prop where
  fresh : d.Fresh
  plain : d.responder.Plain
  certifiers : ∀ s ∈ d.certifiers.elems, s.state.certifier.resolver.ready_ = false ∧
    s.state.upstream_ = none ∧ s.generation ≤ d.generation

theorem Started.trusts (h : d₀.Started) : Trusts d₀ [] d₀ := by
  refine ⟨h.plain, ?_, ?_⟩
  · intro k s hs
    obtain ⟨hready, hnone, hgen⟩ := h.certifiers s (KeyedSet.lookup_eq_some.mp hs).1
    refine ⟨.of_none hnone, hgen, Or.inl ⟨s, hs, rfl, rfl⟩, ?_⟩
    intro hr
    rw [hready] at hr
    exact absurd hr (by simp)
  · intro t ht
    rw [h.fresh.upstream_requests] at ht
    exact absurd ht List.not_mem_nil

theorem SlotOk.mono {s : slot} (h : SlotOk d₀ past d k s) (hgen : d.generation ≤ d'.generation)
    (es' : List daemon_event) : SlotOk d₀ (past ++ es') d' k s :=
  ⟨h.proper, h.generation.trans hgen, h.listed.append es', fun hr => (h.ready hr).append es'⟩

theorem Shared.append {s : slot} (h : Shared d₀ past k a s) (es' : List daemon_event) :
    Shared d₀ (past ++ es') k a s := ⟨h.address, h.certified.append es'⟩

/-- A request keeps it while the table stays. -/
theorem TaskOk.mono {t : task} (h : TaskOk d₀ past d t) (hgen : d'.generation = d.generation)
    (hcert : d'.certifiers = d.certifiers) (es' : List daemon_event) :
    TaskOk d₀ (past ++ es') d' t := by
  refine ⟨?_, ?_⟩
  · intro r hr
    obtain ⟨k, g, hkg, hcertified⟩ := h.resolver r hr
    exact ⟨k, g, hkg, hcertified.append es'⟩
  · intro k g hkg
    obtain ⟨hle, hslot⟩ := h.certifier k g hkg
    rw [hgen, hcert]
    exact ⟨hle, fun s hs hg => (hslot s hs hg).append es'⟩

/-- **An event that leaves the table alone** keeps the invariant if its requests do. -/
theorem Trusts.same (h : Trusts d₀ past d) (es' : List daemon_event) (hplain : d'.responder.Plain)
    (hgen : d'.generation = d.generation) (hcert : d'.certifiers = d.certifiers)
    (htasks : ∀ t, some t ∈ d'.upstream_requests →
      TaskOk d₀ past d t ∨ TaskOk d₀ (past ++ es') d' t) : Trusts d₀ (past ++ es') d' := by
  refine ⟨hplain, ?_, ?_⟩
  · intro k s hs
    rw [hcert] at hs
    exact (h.slots k s hs).mono hgen.ge es'
  · intro t ht
    rcases htasks t ht with ht | ht
    · exact ht.mono hgen hcert es'
    · exact ht

/-! ## Messages -/

theorem current_plain (h : d.responder.Plain) : d.current.Plain := ⟨h.dns_providers, h.onion⟩

/-- The DNSCrypt provider that is drawn belongs to a certifier whose resolver is ready. -/
theorem random_dnscrypt_slot {env : Env} {p : provider}
    (h : responder.random_dnscrypt_provider env
      (d.certifiers.elems.map fun s => (s.ip_port, s.provider)) = some p) :
    ∃ s, d.certifiers.lookup s.ip_port = some s ∧ s.state.certifier.resolver.ready_ = true ∧
      p = s.provider ∧ d.certifier_of env p = some (s.ip_port, s.generation) := by
  -- the names of the ready ones, as the responder and the daemon see them
  have hready : (((d.certifiers.elems.map fun s => (s.ip_port, s.provider)).filter
      fun p => p.2.resolver.any fun r => r.ready_).map Prod.fst) =
      (d.certifiers.elems.filter fun s => s.state.certifier.resolver.ready_).map slot.ip_port := by
    rw [List.filter_map, List.map_map]
    rfl
  unfold responder.random_dnscrypt_provider at h
  dsimp only at h
  rw [hready] at h
  split at h
  · exact absurd h (by simp)
  · next name hname =>
    split_ifs at h
    obtain ⟨s, hs, hsname⟩ := List.mem_map.mp (List.mem_of_getElem? hname)
    obtain ⟨hmem, hsready⟩ := List.mem_filter.mp hs
    have hlookup : d.certifiers.lookup name = some s := KeyedSet.lookup_eq_some.mpr ⟨hmem, hsname⟩
    have hp : p = s.provider := by
      obtain ⟨l₁, l₂, heq, -⟩ := List.lookup_eq_some_iff.mp h
      have hpair : (name, p) ∈ d.certifiers.elems.map fun s => (s.ip_port, s.provider) := by
        rw [heq]
        simp
      obtain ⟨s', hs', hpair⟩ := List.mem_map.mp hpair
      obtain ⟨hname', rfl⟩ := Prod.mk.inj hpair
      have hsame := hlookup.symm.trans (KeyedSet.lookup_eq_some.mpr ⟨hs', hname'⟩)
      rw [Option.some.inj hsame]
    refine ⟨s, by rw [hsname]; exact hlookup, hsready, hp, ?_⟩
    have hsome : p.resolver.isSome = true := by rw [hp]; rfl
    rw [certifier_of, if_pos hsome]
    dsimp only
    rw [hname, Option.bind_some, hlookup]
    rfl

/-- **Whom a message is forwarded to**: an onion address to its provider, and any other to a plain
provider only if the table is empty, else to a provider of the table that is ready. -/
theorem forwarded_to {env : Env} {p : proto} {q : Query} {r : Cdns.responder} {u : Cdns.upstream}
    (h : d.current.process env ⟨p, .of_query q⟩ = .ok (r, .forwarded u)) :
    (d.responder.onion_provider = some u.provider ∧
        ∃ m, responder.Opens env d.current q m ∧
          d.responder.zone_provider m.query = .ok (some u.provider)) ∨
      (u.provider ∈ d.responder.dns_providers ∧
        (d.responder.crypt.isSome → d.certifiers.elems = [])) ∨
      ∃ s, d.certifiers.lookup s.ip_port = some s ∧ s.state.certifier.resolver.ready_ = true ∧
        u.provider = s.provider ∧ d.certifier_of env u.provider = some (s.ip_port, s.generation) := by
  obtain ⟨-, m, prov, hopens, hchosen, -, rfl⟩ := responder.forwarded_cases h
  rcases responder.random_provider_cases hchosen with ⟨hzone, honion⟩ | ⟨hdns, hnone⟩ |
    ⟨c, hc, -, hdraw⟩
  · exact Or.inl ⟨honion, m, hopens, hzone⟩
  · refine Or.inr (Or.inl ⟨hdns, ?_⟩)
    intro hcrypt
    obtain ⟨c, hc⟩ := Option.isSome_iff_exists.mp hcrypt
    have hcurrent : d.current.counted.crypt = some { c with
        dnscrypt_providers := d.certifiers.elems.map fun s => (s.ip_port, s.provider) } := by
      simp only [responder.counted, current, hc, Option.map_some]
    exact List.map_eq_nil_iff.mp (hnone _ hcurrent)
  · right
    right
    obtain ⟨c', hc', rfl⟩ := Option.map_eq_some_iff.mp
      (show d.responder.crypt.map (fun c => { c with
        dnscrypt_providers := d.certifiers.elems.map fun s => (s.ip_port, s.provider) }) = some c
        from hc)
    exact random_dnscrypt_slot hdraw

/-- The request that a message is forwarded with. -/
theorem forwarded_ok {env : Env} {p : proto} {q : Query} {r : Cdns.responder} {u : Cdns.upstream}
    {i : ℕ} (hd : Trusts d₀ past d) (hgen : d'.generation = d.generation)
    (hcert : d'.certifiers = d.certifiers) (es' : List daemon_event)
    (h : d.current.process env ⟨p, .of_query q⟩ = .ok (r, .forwarded u)) :
    TaskOk d₀ (past ++ es') d' ⟨u, i, d.certifier_of env u.provider⟩ := by
  have hnone : u.provider.resolver = none →
      TaskOk d₀ (past ++ es') d' ⟨u, i, d.certifier_of env u.provider⟩ := by
    intro hnone
    have hno : d.certifier_of env u.provider = none := by
      rw [certifier_of, hnone]
      rfl
    refine ⟨?_, ?_⟩
    · intro r hr
      rw [hnone] at hr
      exact absurd hr (by simp)
    · intro k g hkg
      rw [hno] at hkg
      exact absurd hkg (by simp)
  rcases forwarded_to h with ⟨honion, -⟩ | ⟨hdns, -⟩ | ⟨s, hs, hready, hp, hcertifier⟩
  · exact hnone (hd.plain.onion _ honion)
  · exact hnone (hd.plain.dns_providers _ hdns)
  · have hok := hd.slots _ s hs
    have hcertified := (hok.ready hready).append es'
    refine ⟨?_, ?_⟩
    · intro r hr
      rw [hp] at hr ⊢
      rw [← Option.some.inj hr]
      exact ⟨_, _, hp ▸ hcertifier, hcertified⟩
    · intro k g hkg
      rw [hcertifier] at hkg
      obtain ⟨rfl, rfl⟩ := Prod.mk.inj (Option.some.inj hkg)
      rw [hgen, hcert]
      refine ⟨hok.generation, ?_⟩
      intro s' hs' _
      obtain rfl := Option.some.inj (hs.symm.trans hs')
      rw [hp]
      exact ⟨rfl, hcertified⟩

/-- **Processing a message** keeps the invariant. -/
theorem process_trusts (d₁ : daemon) {env : Env} {i : ℕ} {p : proto} {q : Query}
    (hd : Trusts d₀ past d) (es' : List daemon_event) (hgen : d₁.generation = d.generation)
    (hcert : d₁.certifiers = d.certifiers) (hresp : d₁.responder = d.responder)
    (hreqs : d₁.upstream_requests = d.upstream_requests)
    (h : d₁.process env i p q = .ok (d', out)) : Trusts d₀ (past ++ es') d' := by
  have hcurrent : d₁.current = d.current := by rw [current, current, hresp, hcert]
  have hof : ∀ x, d₁.certifier_of env x = d.certifier_of env x := by
    intro x
    rw [certifier_of, certifier_of, hcert]
  obtain ⟨r, o, hr, h⟩ := process_cases h
  rw [hcurrent] at hr
  have hplain := responder.process_plain (current_plain hd.plain) hr
  have hold : ∀ t, some t ∈ d₁.collect env ⟨p, .of_query q⟩ → TaskOk d₀ past d t := by
    intro t ht
    have hmem := (collect_sublist env d₁ _).subset ht
    rw [hreqs] at hmem
    exact hd.tasks t hmem
  rcases h with ⟨-, -, rfl⟩ | ⟨bytes, -, -, rfl⟩ | ⟨u, rfl, -, rfl⟩
  · exact hd.same es' hplain hgen hcert fun t ht => Or.inl (hold t ht)
  · exact hd.same es' hplain hgen hcert fun t ht => Or.inl (hold t ht)
  · refine hd.same es' hplain hgen hcert fun t ht => ?_
    rcases List.mem_append.mp ht with ht | ht
    · exact Or.inl (hold t ht)
    · obtain rfl := Option.some.inj (List.mem_singleton.mp ht)
      rw [hof]
      refine Or.inr (forwarded_ok hd ?_ ?_ es' hr)
      · exact hgen
      · exact hcert

/-! ## The other events -/

theorem on_upstream_trusts {env : Env} {j : ℕ} {event : Cdns.event} (hd : Trusts d₀ past d)
    (es' : List daemon_event)
    (hlife : ∀ t, some t ∈ d.upstream_requests → ∃ p req, t.upstream.Life p req)
    (h : d.on_upstream env j event = .ok (d', out)) : Trusts d₀ (past ++ es') d' := by
  rcases on_upstream_cases h with ⟨rfl, -⟩ | ⟨t, u, passed, ht, hstep, h⟩
  · exact hd.same es' hd.plain rfl rfl fun t ht => Or.inl (hd.tasks t ht)
  · have hmem := List.mem_of_getElem? ht
    have hprovider : u.provider = t.upstream.provider := by
      have := upstream.step_provider hstep
      dsimp only at this
      rw [this, provider.renew_none]
    have htask : TaskOk d₀ past d { t with upstream := u } := by
      obtain ⟨hres, hcertifier⟩ := hd.tasks t hmem
      rw [← hprovider] at hres hcertifier
      exact ⟨hres, hcertifier⟩
    have htasks : ∀ t', some t' ∈ d.upstream_requests.set j (some { t with upstream := u }) →
        TaskOk d₀ past d t' := by
      intro t' ht'
      rcases List.mem_or_eq_of_mem_set ht' with ht' | ht'
      · exact hd.tasks t' ht'
      · rw [Option.some.inj ht']
        exact htask
    rcases h with ⟨-, -, rfl⟩ | ⟨r, bytes, rfl, -, rfl⟩
    · exact hd.same es' hd.plain rfl rfl fun t' ht' => Or.inl (htasks t' ht')
    · obtain ⟨p, req, hu⟩ := hlife t hmem
      obtain ⟨m, hpass, -⟩ := upstream.step_passes hu hstep
      have hplain := responder.pass_answer_downstream_plain (current_plain hd.plain) hpass
      exact hd.same es' hplain rfl rfl fun t' ht' => Or.inl (htasks t' ht')

/-- Only the making of a request depends on its time-out. -/
theorem certifies_of_timed {secs : Float} {s : certifier_state} {ev : certifier_event}
    {pk : pubkey} {c : certificate} (h : s.Certifies (timed secs ev) pk c) :
    s.Certifies ev pk c := by
  obtain ⟨S, now, pending, jitter, io, packet, txt, raw, hev, hrest⟩ := h
  refine ⟨S, now, pending, jitter, io, packet, txt, raw, ?_, hrest⟩
  cases ev with
  | ready _ _ _ _ _ => exact hev
  | start _ => exact absurd hev (by simp [timed])
  | retry_timer _ => exact absurd hev (by simp [timed])
  | stop => exact absurd hev (by simp [timed])
  | timeout => exact absurd hev (by simp [timed])

/-- **An event of a certifier** keeps the invariant: what its resolver becomes is certified for the
requests that share it. -/
theorem on_certifier_trusts {ev : certifier_event} {new : List daemon_output}
    (hd : Trusts d₀ past d) (htakes : Takes d₀ (past ++ [e]) d (.certifier k ev) new)
    (h : d.on_certifier k ev = .ok (d', out)) : Trusts d₀ (past ++ [e]) d' := by
  obtain ⟨-, rfl | ⟨s, state, hs, hstate, rfl⟩⟩ := on_certifier_cases h
  · exact hd.same [e] hd.plain rfl rfl fun t ht => Or.inl (hd.tasks t ht)
  have hok := hd.slots k s hs
  obtain ⟨hproper, haddress, hresolver⟩ := certifier_state.step_resolver hok.proper hstate
  have hpub : state.certifier.resolver.pubkey_ = s.state.certifier.resolver.pubkey_ := by
    rcases hresolver with hres | hres | ⟨c, -, hres⟩
    · rw [hres]
    · rw [hres]
    · rw [hres]
      rfl
  -- a resolver that adopts a certificate now is certified by this event
  have hadopted : ∀ c, s.state.Certifies (timed d.options.timeout ev)
        s.state.certifier.resolver.pubkey_ c →
      state.certifier.resolver = s.state.certifier.resolver.adopt c →
      Certified d₀ (past ++ [e]) k s.state.certifier.address state.certifier.resolver := by
    intro c hc hres
    refine ⟨?_, d, ev, new, s, c, htakes, hs, rfl, ?_, ?_⟩
    · rw [hpub]
      exact hok.listed.append [e]
    · rw [hpub]
      exact certifies_of_timed hc
    · rw [hres]
      exact ⟨rfl, rfl, rfl, rfl, rfl⟩
  have hkept : ∀ {a}, Shared d₀ past k a s →
      Shared d₀ (past ++ [e]) k a { s with state := state } := by
    rintro a ⟨rfl, hc⟩
    refine ⟨haddress, ?_⟩
    dsimp only
    rcases hresolver with hres | hres | ⟨c, hcert, hres⟩
    · rw [hres]
      exact hc.append [e]
    · rw [hres]
      exact hc.forget.append [e]
    · exact hadopted c hcert hres
  have hlookup : ∀ k' s', ((d.certifiers.modify k (fun s => { s with state := state })
      fun _ => rfl).lookup k' = some s') → (k' = k ∧ s' = { s with state := state }) ∨
        (k' ≠ k ∧ d.certifiers.lookup k' = some s') := by
    intro k' s' hs'
    rw [KeyedSet.lookup_modify] at hs'
    split_ifs at hs' with hk
    · rw [hk, hs] at hs'
      exact Or.inl ⟨hk, (Option.some.inj hs').symm⟩
    · exact Or.inr ⟨hk, hs'⟩
  refine ⟨hd.plain, ?_, ?_⟩
  · intro k' s' hs'
    rcases hlookup k' s' hs' with ⟨rfl, rfl⟩ | ⟨-, hold⟩
    · refine ⟨hproper, hok.generation, ?_, ?_⟩
      · dsimp only
        rw [hpub, haddress]
        exact hok.listed.append [e]
      · intro hready
        dsimp only at hready ⊢
        rw [haddress]
        rcases hresolver with hres | hres | ⟨c, hcert, hres⟩
        · rw [hres] at hready ⊢
          exact (hok.ready hready).append [e]
        · rw [hres] at hready
          exact absurd hready (by simp)
        · exact hadopted c hcert hres
    · refine (hd.slots k' s' hold).mono ?_ [e]
      exact le_rfl
  · intro t ht
    obtain ⟨t₀, ht₀, hrenew⟩ := List.mem_map.mp ht
    obtain ⟨t₀, rfl, rfl⟩ := Option.map_eq_some_iff.mp hrenew
    have hold := hd.tasks t₀ ht₀
    -- the certifier of the request, after this event
    have hcertifier : ∀ k' g, t₀.certifier = some (k', g) → g ≤ d.generation ∧
        ∀ s', (d.certifiers.modify k (fun s => { s with state := state })
          fun _ => rfl).lookup k' = some s' → s'.generation = g →
            Shared d₀ (past ++ [e]) k' t₀.upstream.provider.address s' := by
      intro k' g hkg
      obtain ⟨hle, hslot⟩ := hold.certifier k' g hkg
      refine ⟨hle, ?_⟩
      intro s' hs' hg
      rcases hlookup k' s' hs' with ⟨rfl, rfl⟩ | ⟨-, hs'⟩
      · exact hkept (hslot s hs hg)
      · exact (hslot s' hs' hg).append [e]
    unfold renew
    split_ifs with hshared
    · refine ⟨?_, hcertifier⟩
      intro r hr
      dsimp only at hshared
      have hshares := (hold.certifier _ _ hshared).2
      obtain ⟨r₀, -, rfl⟩ := Option.map_eq_some_iff.mp hr
      have hkey := (KeyedSet.lookup_eq_some.mp hs).2
      refine ⟨s.ip_port, s.generation, hshared, ?_⟩
      rw [hkey] at hshares ⊢
      exact (hkept (hshares s hs rfl)).certified
    · refine ⟨?_, hcertifier⟩
      intro r hr
      obtain ⟨k', g, hkg, hcert⟩ := hold.resolver r hr
      exact ⟨k', g, hkg, hcert.append [e]⟩

/-- One turn of a load adds the entry of its resolver at most. -/
theorem mem_load_step {args : cresponder.LoadArgs} {st : provider_table × ℕ} {r : listed_resolver}
    {x : provider_entry} (h : x ∈ (cresponder.load_step args st r).1.elems) :
    x ∈ st.1.elems ∨ x = cresponder.entry args r := by
  have hadd : x ∈ (if cresponder.use args r && !(st.1.lookup (cresponder.ip_port args r)).isSome
      then st.1.insert (cresponder.entry args r) else st.1).elems := by
    unfold cresponder.load_step at h
    dsimp only at h
    split at h
    · exact (List.mem_filter.mp h).1
    · exact h
  split at hadd
  · unfold KeyedSet.insert at hadd
    split at hadd
    · exact Or.inl hadd
    · rcases List.mem_append.mp hadd with hadd | hadd
      · exact Or.inl hadd
      · exact Or.inr (List.mem_singleton.mp hadd)
  · exact Or.inl hadd

/-- What a load can put into the table: what was there, or a new entry for a listed resolver. -/
theorem mem_merge {args : cresponder.LoadArgs} {old : provider_table} {rs : List listed_resolver}
    {x : provider_entry} (h : x ∈ (cresponder.merge args old rs).1.elems) :
    x ∈ old.elems ∨ ∃ r ∈ rs, x = cresponder.entry args r := by
  have hpass : x ∈ (rs.foldl (cresponder.load_step args) (old, 0)).1.elems :=
    (List.mem_filter.mp h).1
  clear h
  induction rs using List.reverseRecOn with
  | nil => exact Or.inl hpass
  | append_singleton rs r ih =>
      rw [List.foldl_append, List.foldl_cons, List.foldl_nil] at hpass
      rcases mem_load_step hpass with hpass | rfl
      · rcases ih hpass with hold | ⟨r', hr', rfl⟩
        · exact Or.inl hold
        · exact Or.inr ⟨r', by simp [hr'], rfl⟩
      · exact Or.inr ⟨r, by simp, rfl⟩

/-- **The table after a load**: a certifier that was there, or a new one for a resolver of the
list. -/
theorem load_certifiers_cases {args : cresponder.LoadArgs}
    {parsed : Result (List listed_resolver)} {generation : ℕ}
    {certifiers certifiers' : KeyedSet slot.ip_port} {s : slot}
    (h : load_certifiers args parsed generation certifiers = .ok certifiers')
    (hs : certifiers'.lookup k = some s) :
    certifiers.lookup k = some s ∨ (s.generation = generation ∧ s.state.upstream_ = none ∧
      s.state.certifier.resolver.ready_ = false ∧ ∃ rs r, parsed = .ok rs ∧ r ∈ rs ∧
        r.address.ip_port args.net = k ∧ s.state.certifier.address = r.address ∧
        s.state.certifier.resolver.pubkey_ = r.public_key) := by
  unfold load_certifiers at h
  dsimp only at h
  obtain ⟨_, -, h⟩ := Result.bind_eq_ok.mp h
  rw [← Except.ok.inj h] at hs
  obtain ⟨hmem, hk⟩ := KeyedSet.lookup_eq_some.mp hs
  obtain ⟨x, hx, rfl⟩ := List.mem_map.mp hmem
  rw [slot_of_ip_port] at hk
  unfold slot_of
  rw [hk]
  cases hold : certifiers.lookup k with
  | some s' => exact Or.inl rfl
  | none =>
      right
      refine ⟨rfl, rfl, ?_⟩
      -- the entry is not one that was there
      have hnew : x ∉ (table certifiers).elems := by
        intro hin
        obtain ⟨s', hs', rfl⟩ := List.mem_map.mp hin
        exact KeyedSet.lookup_eq_none.mp hold s' hs' hk
      cases parsed with
      | error x => exact absurd hx hnew
      | ok rs =>
          rcases mem_merge hx with hin | ⟨r, hr, rfl⟩
          · exact absurd hin hnew
          · exact ⟨rfl, rs, r, rfl, hr, hk, rfl, rfl⟩

/-- **A reload** keeps the invariant: a certifier that is new has a generation of its own. -/
theorem reload_trusts {x : Reading} {new : List daemon_output} (hd : Trusts d₀ past d)
    (htakes : Takes d₀ (past ++ [e]) d (.reload x) new) (h : d.reload x = .ok d') :
    Trusts d₀ (past ++ [e]) d' := by
  have hplain := responder.reload_plain hd.plain (reload_responder h)
  unfold reload at h
  split at h
  · exact absurd h (by simp)
  next r hr =>
  split_ifs at h
  · obtain ⟨certifiers, hload, h⟩ := Result.bind_eq_ok.mp h
    obtain rfl := Except.ok.inj h
    have hcases := fun k s => @load_certifiers_cases k _ _ _ _ _ s hload
    refine ⟨hplain, ?_, ?_⟩
    · intro k s hs
      rcases hcases k s hs with hold | ⟨hgen, hnone, hready, rs, r, hrs, hmem, hk, ha, hpub⟩
      · refine (hd.slots k s hold).mono ?_ [e]
        exact Nat.le_succ _
      · refine ⟨.of_none hnone, hgen.le, ?_, ?_⟩
        · exact Or.inr ⟨d, x, new, rs, r, htakes, hrs, hmem, hk, ha.symm, hpub.symm⟩
        · intro hr
          rw [hready] at hr
          exact absurd hr (by simp)
    · intro t ht
      have hold := hd.tasks t ht
      refine ⟨?_, ?_⟩
      · intro r hr
        obtain ⟨k, g, hkg, hcert⟩ := hold.resolver r hr
        exact ⟨k, g, hkg, hcert.append [e]⟩
      · intro k g hkg
        obtain ⟨hle, hslot⟩ := hold.certifier k g hkg
        refine ⟨Nat.le_succ_of_le hle, ?_⟩
        intro s hs hg
        rcases hcases k s hs with hold | ⟨hgen, -⟩
        · exact (hslot s hold hg).append [e]
        · omega
  · obtain rfl := Except.ok.inj h
    exact hd.same [e] hplain rfl rfl fun t ht => Or.inl (hd.tasks t ht)

/-- **Every event keeps the invariant.** -/
theorem step_trusts {seen new : List daemon_output} (h₀ : d₀.Fresh)
    (hpast : d₀.run past = .ok (d, seen)) (hd : Trusts d₀ past d)
    (h : d.step e = .ok (d', new)) : Trusts d₀ (past ++ [e]) d' := by
  have htakes : Takes d₀ (past ++ [e]) d e new := .last hpast h
  have hsame : ∀ {d' : daemon}, d'.responder = d.responder → d'.generation = d.generation →
      d'.certifiers = d.certifiers → d'.upstream_requests = d.upstream_requests →
      Trusts d₀ (past ++ [e]) d' := by
    intro d' hresp hgen hcert hreqs
    refine hd.same [e] ?_ hgen hcert ?_
    · rw [hresp]
      exact hd.plain
    · intro t ht
      rw [hreqs] at ht
      exact Or.inl (hd.tasks t ht)
  cases e with
  | datagram env data address =>
      obtain ⟨q, h⟩ := on_datagram_cases h
      exact process_trusts (d.make_udp_incoming address) hd _ rfl rfl rfl rfl h
  | connection accepted =>
      obtain ⟨address, -, rfl, rfl⟩ := on_connection_cases h
      exact hsame rfl rfl rfl rfl
  | request env i socket =>
      rcases on_request_cases h with ⟨rfl, -⟩ | ⟨-, -, rfl, -⟩ | ⟨-, q, h⟩
      · exact hsame rfl rfl rfl rfl
      · exact hsame rfl rfl rfl rfl
      · exact process_trusts (d.stop_receiving i) hd _ rfl rfl rfl rfl h
  | client_timeout i =>
      obtain ⟨rfl, -⟩ := Prod.mk.inj (Except.ok.inj h)
      exact hsame rfl rfl rfl rfl
  | upstream env j event =>
      refine on_upstream_trusts hd _ ?_ h
      intro t ht
      obtain ⟨_, _, _, p, req, -, -, hu⟩ := run_life h₀ hpast ht
      exact ⟨p, req, hu⟩
  | certifier k event => exact on_certifier_trusts hd htakes h
  | reload reading =>
      obtain ⟨d₁, hd₁, h⟩ := Result.bind_eq_ok.mp h
      obtain ⟨rfl, -⟩ := Prod.mk.inj (Except.ok.inj h)
      exact reload_trusts hd htakes hd₁
  | random_timer providers_saved cache_saved =>
      obtain ⟨rfl, -⟩ := on_random_timer_spec h
      exact hsame rfl rfl rfl rfl

theorem run_trusts (h₀ : d₀.Started) (h : d₀.run es = .ok (d, out)) : Trusts d₀ es d := by
  refine run_rule (I := fun past s _ => Trusts d₀ past s) h₀.trusts ?_ h
  intro past s seen e s' new hpast hI hstep
  exact step_trusts h₀.fresh hpast hI hstep

end daemon

/-- **The daemon encrypts to certified keys only.** In every run of a daemon whose certifiers are
new at its start, whatever is answered to the requests for certificates and however lists are
reloaded: the resolver of every request to a DNSCrypt provider has the key, the magic and the
cipher of a certificate that came in a packet during the run, with a signature of the provider
that was listed under the address which the request goes to. And a message that comes while there
are DNSCrypt providers in the table goes to one of them whose resolver is ready and certified for
its address, or it asks for an onion address. -/
theorem daemon.encrypts_certified {d₀ d : daemon} {es : List daemon_event}
    {out : List daemon_output} (h₀ : d₀.Started) (h : d₀.run es = .ok (d, out)) :
    (∀ t r, some t ∈ d.upstream_requests → t.upstream.provider.resolver = some r →
      ∃ k g, t.certifier = some (k, g) ∧ Certified d₀ es k t.upstream.provider.address r) ∧
    ∀ env p q r u, d.current.process env ⟨p, .of_query q⟩ = .ok (r, .forwarded u) →
      d.responder.crypt.isSome → d.certifiers.elems ≠ [] →
      (∃ m, responder.Opens env d.current q m ∧
        d.responder.zone_provider m.query = .ok (some u.provider)) ∨
      ∃ k r, u.provider.resolver = some r ∧ r.ready_ = true ∧
        Certified d₀ es k u.provider.address r := by
  have hd := run_trusts h₀ h
  refine ⟨?_, ?_⟩
  · intro t r ht hr
    exact (hd.tasks t ht).resolver r hr
  · intro env p q r u hforward hcrypt htable
    rcases forwarded_to hforward with ⟨-, hzone⟩ | ⟨-, hempty⟩ | ⟨s, hs, hready, hp, -⟩
    · exact Or.inl hzone
    · exact absurd (hempty hcrypt) htable
    · right
      have hcertified := (hd.slots _ s hs).ready hready
      rw [hp]
      exact ⟨s.ip_port, s.state.certifier.resolver, rfl, hready, hcertified⟩

/-! ### A daemon with one DNSCrypt provider -/

/-- A daemon that has just loaded a list with one resolver. -/
def sampleCryptDaemon : daemon :=
  { sampleDaemon with
    responder := { sampleResponder with crypt := some ⟨[], none⟩ }
    certifiers := KeyedSet.empty.insert ⟨['a'], 0, certifier_state.sampleFresh⟩ }

/-- The certificate is obtained, and a client asks. -/
def sampleCertified : List daemon_event :=
  certifier_state.sampleRound.map (.certifier ['a']) ++ [sampleDatagram]

theorem sampleCryptDaemon_started : sampleCryptDaemon.Started := by
  refine ⟨⟨rfl, rfl, rfl, rfl⟩, ⟨?_, ?_⟩, ?_⟩
  · intro p hp
    exact absurd hp List.not_mem_nil
  · intro p hp
    exact absurd hp (by simp [sampleCryptDaemon, sampleResponder])
  · intro s hs
    rw [List.mem_singleton.mp hs]
    exact ⟨rfl, rfl, le_rfl⟩

/-- The request for the client has a resolver, and that is certified. -/
theorem daemon.encrypts_certified_sample : ∃ d out t r,
    sampleCryptDaemon.run sampleCertified = .ok (d, out) ∧ some t ∈ d.upstream_requests ∧
      t.upstream.provider.resolver = some r ∧ ∃ k g, t.certifier = some (k, g) ∧
        daemon.Certified sampleCryptDaemon sampleCertified k t.upstream.provider.address r := by
  have hrun : (sampleCryptDaemon.run sampleCertified).map
      (fun x => x.1.upstream_requests.map (Option.any fun t => t.upstream.provider.resolver.isSome))
        = .ok [true] := by decide +kernel
  cases h : sampleCryptDaemon.run sampleCertified with
  | error e =>
      rw [h] at hrun
      exact absurd hrun (by simp [Except.map])
  | ok x =>
      obtain ⟨d, out⟩ := x
      rw [h] at hrun
      have hlist := Except.ok.inj hrun
      obtain ⟨t, l, hreqs, ht, -⟩ := List.map_eq_cons_iff.mp hlist
      obtain ⟨t, rfl, ht⟩ := (Option.any_eq_true _ _).mp ht
      obtain ⟨r, hr⟩ := Option.isSome_iff_exists.mp ht
      have hmem : some t ∈ d.upstream_requests := by
        have hd : d.upstream_requests = some t :: l := hreqs
        rw [hd]
        exact List.mem_cons_self
      exact ⟨d, out, t, r, rfl, hmem, hr,
        (daemon.encrypts_certified sampleCryptDaemon_started h).1 t r hmem hr⟩

end Cdns
