/-
What a reply from a provider can do to the daemon.

`upstream::on_receive` handles `net_error` and lets every other exception through to
the event loop, which handles none. The first section goes through everything that
is called after the reply was received and finds no `net_error` there. The rest says
when the callback returns: for a request on behalf of a client the reply must have a
text, go into the cache and be sent, and for a request for a certificate its answers
must parse (`on_receive_returns_iff`).
-/
import Cdns.ResponderSpec
import Cdns.Upstream

set_option autoImplicit false

namespace Cdns

open Lib.Storage

/-! ## What a handler takes -/

namespace Result

variable {α β : Type}

/-- A handler of `net_error` takes no failure of it. -/
def uncaught (x : Result α) : Prop := ∀ e, x = .error e → e.is_net_error = false

theorem uncaught_ok (a : α) : uncaught (.ok a : Result α) := by
  intro e h
  exact absurd h (by simp)

theorem uncaught_error {e : Exn} (h : e.is_net_error = false) :
    uncaught (.error e : Result α) := by
  intro e' h'
  rw [← Except.error.inj h']
  exact h

theorem uncaught_bind {x : Result α} {f : α → Result β} (hx : uncaught x)
    (hf : ∀ a, uncaught (f a)) : uncaught (x >>= f) := by
  cases x with
  | error e => exact uncaught_error (hx e rfl)
  | ok a => exact hf a

end Result

open Result (uncaught uncaught_ok uncaught_error uncaught_bind)

theorem put_uncaught (b : Buffer) (off : ℕ) (l : List UInt8) : uncaught (put b off l) := by
  unfold put
  split_ifs
  · exact uncaught_ok _
  · exact uncaught_error rfl

theorem set_size_uncaught (b : Buffer) (s : ℕ) : uncaught (set_size b s) := by
  unfold set_size
  split_ifs
  · exact uncaught_ok _
  · exact uncaught_error rfl

theorem rr_class_cstr_uncaught (class_ : ℕ) : uncaught (rr_class_cstr class_) := by
  unfold rr_class_cstr
  split
  all_goals first | exact uncaught_ok _ | exact uncaught_error rfl

namespace Query

theorem get_rr_name_loop_uncaught (pkt : Buffer) (pktlen n : ℕ) :
    ∀ off owner, uncaught (get_rr_name_loop pkt pktlen n off owner) := by
  induction n with
  | zero => exact fun off owner => uncaught_error rfl
  | succ n ih =>
      intro off owner
      rw [get_rr_name_loop]
      dsimp only
      split_ifs
      all_goals first | exact uncaught_ok _ | exact uncaught_error rfl | exact ih _ _

theorem get_rr_name_uncaught (q : Query) (off : ℕ) : uncaught (q.get_rr_name off) := by
  unfold get_rr_name
  split_ifs
  · exact uncaught_error rfl
  · exact get_rr_name_loop_uncaught _ _ _ _ _

theorem get_rr_uncaught (q : Query) (off : ℕ) : uncaught (q.get_rr off) := by
  refine uncaught_bind (q.get_rr_name_uncaught off) fun p => ?_
  dsimp only
  split_ifs
  · exact uncaught_error rfl
  · exact uncaught_error rfl
  · exact uncaught_ok _

theorem get_rr_question_uncaught (q : Query) (off : ℕ) : uncaught (q.get_rr_question off) := by
  refine uncaught_bind (q.get_rr_name_uncaught off) fun p => ?_
  dsimp only
  split_ifs
  · exact uncaught_error rfl
  · exact uncaught_ok _

theorem get_question_uncaught (q : Query) : uncaught q.get_question := by
  unfold get_question
  split_ifs
  · exact uncaught_error rfl
  · exact uncaught_bind (q.get_rr_question_uncaught _) fun p => uncaught_ok _

theorem for_each_uncaught {σ : Type} {get : ℕ → Result (rr × ℕ)} {body : σ → rr → Result σ}
    (hget : ∀ off, uncaught (get off)) (hbody : ∀ s r, uncaught (body s r)) (n : ℕ) :
    ∀ off s, uncaught (for_each get body n off s) := by
  induction n with
  | zero => exact fun off s => uncaught_ok _
  | succ n ih =>
      exact fun off s => uncaught_bind (hget off) fun p =>
        uncaught_bind (hbody s p.1) fun s' => ih p.2 s'

theorem answer_min_ttl_uncaught (q : Query) : uncaught q.answer_min_ttl := by
  unfold answer_min_ttl
  dsimp only
  split_ifs
  · exact uncaught_ok _
  · exact uncaught_ok _
  · exact uncaught_ok _
  · exact uncaught_ok _
  · refine uncaught_bind (for_each_uncaught q.get_rr_question_uncaught
      (fun _ _ => uncaught_ok _) _ _ _) fun p => ?_
    split_ifs
    · exact uncaught_ok _
    · exact uncaught_bind (for_each_uncaught q.get_rr_uncaught (fun _ _ => uncaught_ok _) _ _ _)
        fun p => uncaught_ok _

theorem rcode_info_uncaught (q : Query) : uncaught q.rcode_info := by
  have hcstr : uncaught (pkt_rcode_cstr q.rcode) := by
    unfold pkt_rcode_cstr
    split
    all_goals first | exact uncaught_ok _ | exact uncaught_error rfl
  unfold rcode_info
  dsimp only
  split_ifs
  · exact uncaught_bind hcstr fun s => uncaught_ok _
  · exact uncaught_ok _
  · exact uncaught_ok _

theorem answer_info_uncaught (net : Inet) (stack : Buffer) (r : rr) :
    uncaught (answer_info net stack r) := by
  have haddr : ∀ af, uncaught (address.of_bytes stack af r.data 0) := by
    intro af
    unfold address.of_bytes
    split_ifs
    · exact uncaught_error rfl
    · exact uncaught_error rfl
    · exact uncaught_ok _
  unfold answer_info
  split_ifs
  · exact uncaught_bind (haddr _) fun a => uncaught_ok _
  · exact uncaught_bind (haddr _) fun a => uncaught_ok _
  · exact uncaught_ok _
  · exact uncaught_bind (rr_class_cstr_uncaught _) fun c => uncaught_ok _

theorem short_info_uncaught (net : Inet) (stack : Buffer) (q : Query) :
    uncaught (q.short_info net stack) := by
  refine uncaught_bind q.rcode_info_uncaught fun result => ?_
  refine uncaught_bind (for_each_uncaught q.get_rr_question_uncaught (fun _ _ =>
    uncaught_bind (rr_class_cstr_uncaught _) fun c => uncaught_ok _) _ _ _) fun p => ?_
  exact uncaught_bind (for_each_uncaught q.get_rr_uncaught (fun _ _ =>
    uncaught_bind (answer_info_uncaught _ _ _) fun t => uncaught_ok _) _ _ _) fun p => uncaught_ok _

theorem host_type_info_uncaught (q : Query) : uncaught q.host_type_info :=
  uncaught_bind (for_each_uncaught q.get_rr_question_uncaught (fun _ _ => uncaught_ok _) _ _ _)
    fun _ => uncaught_ok _

theorem get_txt_answer_uncaught (q : Query) : uncaught q.get_txt_answer := by
  refine uncaught_bind ?_ fun t => uncaught_ok _
  refine uncaught_bind (for_each_uncaught q.get_rr_question_uncaught
    (fun _ _ => uncaught_ok _) _ _ _) fun p => ?_
  exact uncaught_bind (for_each_uncaught q.get_rr_uncaught (fun _ _ => uncaught_ok _) _ _ _)
    fun _ => uncaught_ok _

end Query

theorem pad_buffer_uncaught (buf : Buffer) (base len max_len : ℕ) (rnd : ℕ → ℕ) :
    uncaught (detail.pad_buffer buf base len max_len rnd) := by
  unfold detail.pad_buffer
  dsimp only
  split_ifs
  all_goals first
    | exact uncaught_ok _
    | exact uncaught_bind (put_uncaught _ _ _) fun b => uncaught_bind (put_uncaught _ _ _) fun b =>
        uncaught_ok _

theorem find_end_uncaught (buf : Buffer) (size : ℕ) : uncaught (detail.find_end buf size) := by
  unfold detail.find_end
  dsimp only
  split_ifs
  · exact uncaught_error rfl
  · exact uncaught_ok _

namespace encryptor_data

theorem curve_uncurve_uncaught (S : Sodium) (keys : encryptor_data) (n : full_nonce)
    (input : List UInt8) (e : Bool) : uncaught (curve_uncurve S keys n input e) := by
  unfold curve_uncurve
  split_ifs
  · exact uncaught_error rfl
  all_goals
    dsimp only
    split
    · exact uncaught_error rfl
    · exact uncaught_ok _

theorem uncurve_uncaught (S : Sodium) (enc : encryptor_data) (n : nonce) (q : Query) :
    uncaught (enc.uncurve S n q) := by
  unfold uncurve
  dsimp only
  split_ifs
  · exact uncaught_error rfl
  · exact uncaught_error rfl
  · exact uncaught_error rfl
  · refine uncaught_bind (curve_uncurve_uncaught _ _ _ _ _) fun p => ?_
    refine uncaught_bind (put_uncaught _ _ _) fun b => ?_
    refine uncaught_bind (find_end_uncaught _ _) fun d => ?_
    split_ifs
    · exact uncaught_error rfl
    · exact set_size_uncaught _ _

theorem curve_uncaught (S : Sodium) (enc : encryptor_data) (rnd : ℕ → ℕ) (n : nonce) (q : Query) :
    uncaught (enc.curve S rnd n q) := by
  unfold curve
  dsimp only
  split_ifs
  · exact uncaught_error rfl
  · refine uncaught_bind (put_uncaught _ _ _) fun b => ?_
    refine uncaught_bind (pad_buffer_uncaught _ _ _ _ _) fun p => ?_
    refine uncaught_bind (curve_uncurve_uncaught _ _ _ _ _) fun o => ?_
    refine uncaught_bind (put_uncaught _ _ _) fun b => ?_
    refine uncaught_bind (put_uncaught _ _ _) fun b => ?_
    split_ifs
    · exact uncaught_error rfl
    · exact set_size_uncaught _ _

end encryptor_data

theorem server_curve_uncaught (S : Sodium) (keys : server_encryptor_data) (sn n : nonce)
    (nmkey : pubkey) (q : Query) : uncaught (keys.curve S sn n nmkey q) := by
  unfold server_encryptor_data.curve
  refine uncaught_bind (put_uncaught _ _ _) fun b => ?_
  refine uncaught_bind (pad_buffer_uncaught _ _ _ _ _) fun p => ?_
  dsimp only
  split
  · exact uncaught_error rfl
  · exact uncaught_bind (put_uncaught _ _ _) fun b => uncaught_bind (put_uncaught _ _ _) fun b =>
      set_size_uncaught _ _

/-! ## No failure of the callees is caught -/

theorem Cache.store_uncaught (c : Cache) (tnow : ℤ) (msg : Query) :
    uncaught (c.store tnow msg) := by
  unfold store
  split_ifs
  · refine uncaught_bind msg.get_question_uncaught fun p => ?_
    dsimp only
    split_ifs
    · exact uncaught_bind msg.answer_min_ttl_uncaught fun t => uncaught_ok _
    · exact uncaught_ok _
  · exact uncaught_ok _

theorem incoming.respond_uncaught (env : Env) (req : incoming) (q : Query) :
    uncaught (req.respond env q) := by
  unfold respond
  split
  · exact uncaught_ok _
  · split
    · exact uncaught_ok _
    · next r hr =>
      intro e he
      cases e with
      | net_error what => exact absurd he (hr what)
      | _ => rfl

namespace responder

theorem encrypt_uncaught (env : Env) (r : responder) (m : Message) :
    uncaught (r.encrypt env m) := by
  unfold encrypt
  split
  · exact server_curve_uncaught _ _ _ _ _ _
  · exact uncaught_ok _

theorem store_answer_uncaught (env : Env) (r : responder) (q : Query) :
    uncaught (r.store_answer env q) := by
  unfold store_answer
  split_ifs
  · refine uncaught_bind (Cache.store_uncaught _ _ _) fun c => ?_
    split_ifs
    · exact uncaught_error rfl
    · exact uncaught_ok _
  · exact uncaught_ok _

/-- **Nothing in `pass_answer_downstream` throws a `net_error`**, so what it throws
leaves the callback. -/
theorem pass_answer_downstream_uncaught (env : Env) (r : responder) (inptr : incoming)
    (m : Message) : uncaught (r.pass_answer_downstream env inptr m) := by
  refine uncaught_bind (Query.short_info_uncaught _ _ _) fun _ => ?_
  refine uncaught_bind (store_answer_uncaught _ _ _) fun r' => ?_
  refine uncaught_bind ?_ fun b => uncaught_ok _
  exact uncaught_bind (encrypt_uncaught _ _ _) fun q =>
    uncaught_bind (incoming.respond_uncaught _ _ _) fun _ => uncaught_ok _

end responder

namespace provider

theorem fold_uncaught (S : Sodium) (p : provider) (io : Io) (q : Message) :
    uncaught (p.fold S io q) := by
  unfold fold
  split
  · exact uncaught_ok _
  · split
    · exact uncaught_bind (encryptor_data.curve_uncaught _ _ _ _ _) fun m => uncaught_ok _
    · exact uncaught_error rfl

theorem unfold_uncaught (S : Sodium) (p : provider) (q : Message) : uncaught (p.unfold S q) := by
  unfold unfold
  split
  · exact uncaught_ok _
  · split
    · exact uncaught_bind (encryptor_data.uncurve_uncaught _ _ _ _) fun m => uncaught_ok _
    · exact uncaught_error rfl

end provider

/-- **Nor does anything in `process_response`.** -/
theorem certifier.process_response_uncaught (S : Sodium) (now : ℕ) (pending : Bool) (jitter : ℕ)
    (c : certifier) (q : Query) : uncaught (c.process_response S now pending jitter q) := by
  refine uncaught_bind q.host_type_info_uncaught fun _ => ?_
  refine uncaught_bind q.get_txt_answer_uncaught fun txt => ?_
  split
  · next e he =>
    obtain ⟨a, ha⟩ := resolver.find_valid_certificate_returns S now c.ephemeral txt
    rw [ha] at he
    exact absurd he (by simp)
  · exact uncaught_ok _

/-! ## Passing an answer on -/

/-- A reply has a text. -/
structure Query.Described (q : Query) : Prop where
  /-- the code has a text -/
  code : q.rcode ≤ 10
  /-- the questions and answers parse and have texts -/
  records : ∃ qs off rs e, q.questions = .ok (qs, off) ∧ (∀ r ∈ qs, known_class r.class_) ∧
    Query.collect q.get_rr q.header.ancount off = .ok (rs, e) ∧ ∀ r ∈ rs, Query.Printable r

namespace responder

/-- A reply goes into the cache, and the cache into its file when it is time. A reply
that is truncated is not stored, but the file may be written all the same. -/
def StoreReturns (env : Env) (r : responder) (q : Query) : Prop :=
  if Cache.storable q = true then
    ∃ owner class_ type, q.get_question = .ok (owner, class_, type) ∧
      (class_ = rr_class.internet.code → q.header.qr = false ∨ q.records.returns) ∧
      (r.cache_dir = [] ∨ env.saved = true ∨ r.cache.count_after q owner class_ type % 16 ≠ 0)
  else r.cache_dir = [] ∨ env.saved = true ∨ r.cache.entries.elems.length % 16 ≠ 0

/-- A reply to an encrypted request leaves room for its header. -/
def Fits (r : responder) (m : Message) : Prop :=
  ∀ s key n, r.crypt.bind crypt_part.server = some s → m.cls = .emessage key n →
    m.query.size ≤ 55487

/-- **What an answer needs** to be passed on to a client. -/
structure AnswerReturns (env : Env) (r : responder) (inptr : incoming) (m : Message) : Prop where
  described : m.query.Described
  stored : m.query.rcode = pkt_rcode.noerror.code ∨ m.query.rcode = pkt_rcode.nxdomain.code →
    r.StoreReturns env m.query
  fits : r.Fits m
  sends : Sends env inptr.proto

theorem store_returns (env : Env) (r : responder) (q : Query) :
    (r.store env q).returns ↔ r.StoreReturns env q := by
  unfold StoreReturns
  by_cases hst : Cache.storable q = true
  · rw [if_pos hst]
    -- without a question that parses neither side holds
    by_cases hq : ∃ p, q.get_question = .ok p
    · obtain ⟨⟨owner, class_, type⟩, hq⟩ := hq
      rw [store_returns_iff fun c hc => Cache.store_length hq hc, Cache.store_returns]
      constructor
      · rintro ⟨h, hsave⟩
        obtain ⟨o, c, t, hq', h⟩ := h hst
        obtain ⟨rfl, rfl, rfl⟩ := Query.get_question_unique hq hq'
        exact ⟨_, _, _, hq, h, hsave⟩
      · rintro ⟨o, c, t, hq', h, hsave⟩
        obtain ⟨rfl, rfl, rfl⟩ := Query.get_question_unique hq hq'
        exact ⟨fun _ => ⟨_, _, _, hq, h⟩, hsave⟩
    · refine iff_of_false ?_ ?_
      · intro h
        obtain ⟨c, hc, -⟩ := Result.returns_bind.mp h
        obtain ⟨o, c', t, hq', -⟩ := (Cache.store_returns _ _ _).mp ⟨c, hc⟩ hst
        exact hq ⟨_, hq'⟩
      · rintro ⟨o, c, t, hq', -⟩
        exact hq ⟨_, hq'⟩
  · have hc : r.cache.store env.tnow q = .ok r.cache := by
      rw [Cache.store, if_neg hst]
    rw [if_neg hst, store_returns_iff (n := r.cache.entries.elems.length)
      fun c h => by rw [hc] at h; rw [Except.ok.inj h]]
    exact and_iff_right ⟨_, hc⟩

/-- Encryption needs room for the header, and nothing else. -/
theorem encrypt_returns_iff {env : Env} (hS : env.S.Lawful) (hseals : ∀ c, (env.S.box c).Seals)
    (r : responder) (m : Message) : (r.encrypt env m).returns ↔ r.Fits m := by
  constructor
  · intro h s key n hs hm
    by_contra hlong
    rw [encrypt, hs, hm] at h
    dsimp only at h
    rw [server_curve_overrun _ _ _ _ _ (by omega)] at h
    exact Result.not_returns_error _ h
  · intro h
    by_cases hm : m.query.size ≤ 55487
    · exact encrypt_returns hS hseals r hm
    · unfold encrypt
      split
      · next s key n hs hcls => exact absurd (h s key n hs hcls) hm
      · exact Result.returns_ok _

/-- Storing changes the cache only, so a reply is encrypted with the same keys. -/
theorem store_answer_crypt {env : Env} {r r' : responder} {q : Query}
    (h : r.store_answer env q = .ok r') : r'.crypt = r.crypt := by
  unfold store_answer store at h
  split_ifs at h
  · obtain ⟨c, -, h⟩ := Result.bind_eq_ok.mp h
    split_ifs at h
    rw [← Except.ok.inj h]
  · rw [← Except.ok.inj h]

/-- **When an answer is passed on.** -/
theorem pass_answer_downstream_returns {env : Env} (hS : env.S.Lawful)
    (hseals : ∀ c, (env.S.box c).Seals) (r : responder) (inptr : incoming) (m : Message) :
    (r.pass_answer_downstream env inptr m).returns ↔ r.AnswerReturns env inptr m := by
  have hstore : (r.store_answer env m.query).returns ↔
      (m.query.rcode = pkt_rcode.noerror.code ∨ m.query.rcode = pkt_rcode.nxdomain.code →
        r.StoreReturns env m.query) := by
    unfold store_answer
    split_ifs with h
    · rw [store_returns]
      exact ⟨fun h' _ => h', fun h' => h' h⟩
    · exact iff_of_true (Result.returns_ok _) fun h' => absurd h' h
  -- storing changes neither the keys nor the connection
  have hrespond : ∀ r' : responder, (r'.respond env { inptr with message := m }).returns ↔
      r'.Fits m ∧ Sends env inptr.proto := by
    intro r'
    have hfin := finish_returns env r' inptr.proto m
    rw [finish, Result.returns_bind_iff fun _ => Result.returns_ok _,
      encrypt_returns_iff hS hseals] at hfin
    exact hfin
  rw [pass_answer_downstream, Result.returns_bind]
  constructor
  · rintro ⟨text, htext, h⟩
    obtain ⟨r', hr', h⟩ := Result.returns_bind.mp h
    rw [Result.returns_bind_iff fun _ => Result.returns_ok _, hrespond] at h
    obtain ⟨hcode, hrec⟩ := (Query.short_info_returns _ _ _).mp ⟨text, htext⟩
    refine ⟨⟨hcode, hrec⟩, hstore.mp ⟨r', hr'⟩, ?_, h.2⟩
    have hfits := h.1
    unfold Fits at hfits
    rw [store_answer_crypt hr'] at hfits
    exact hfits
  · rintro ⟨⟨hcode, hrec⟩, hst, hfits, hsends⟩
    obtain ⟨text, htext⟩ := (Query.short_info_returns env.net env.stack m.query).mpr ⟨hcode, hrec⟩
    obtain ⟨r', hr'⟩ := hstore.mpr hst
    refine ⟨text, htext, Result.returns_bind.mpr ⟨r', hr', ?_⟩⟩
    rw [Result.returns_bind_iff fun _ => Result.returns_ok _, hrespond]
    refine ⟨?_, hsends⟩
    unfold Fits
    rw [store_answer_crypt hr']
    exact hfits

end responder

/-! ## Certificates -/

/-- **When a reply with certificates is processed.** -/
theorem certifier.process_response_returns (S : Sodium) (now : ℕ) (pending : Bool) (jitter : ℕ)
    (c : certifier) (q : Query) :
    (c.process_response S now pending jitter q).returns ↔ q.answers.returns := by
  rw [process_response, Result.returns_bind]
  constructor
  · rintro ⟨info, -, h⟩
    obtain ⟨txt, htxt, -⟩ := Result.returns_bind.mp h
    obtain ⟨t, ht, -⟩ := Result.bind_eq_ok.mp htxt
    exact (Query.find_txt_answers_returns q).mp ⟨t, ht⟩
  · intro h
    have hqs : q.questions.returns := by
      obtain ⟨a, ha⟩ := h
      obtain ⟨qs, hqs, -⟩ := Result.bind_eq_ok.mp ha
      exact ⟨qs, hqs⟩
    obtain ⟨info, hinfo⟩ := (Query.host_type_info_returns q).mpr hqs
    obtain ⟨t, ht⟩ := (Query.find_txt_answers_returns q).mpr h
    refine ⟨info, hinfo, Result.returns_bind.mpr ⟨t.map fun arr => arr.drop 1, ?_, ?_⟩⟩
    · rw [Query.get_txt_answer, ht]
      rfl
    · -- adopting a certificate always returns
      split
      · next e he =>
        obtain ⟨a, ha⟩ := resolver.find_valid_certificate_returns S now c.ephemeral
          (t.map fun arr => arr.drop 1)
        rw [ha] at he
        exact absurd he (by simp)
      · exact Result.returns_ok _

/-! ## What a callback passes on -/

/-- What becomes of a message that a callback passes on. -/
def progress.forward {α : Type} (pass : Message → Result α) :
    progress Message → Result (progress α)
  | .going stage question => .ok (.going stage question)
  | .over none => .ok (.over none)
  | .over (some m) => do
      let a ← pass m
      .ok (.over (some a))

namespace network_upstream

variable {α : Type} (pass : Message → Result α)

theorem pass_failure_downstream_eq (question : Message) :
    pass_failure_downstream pass question =
      pass_failure_downstream .ok question >>= progress.forward pass := by
  unfold pass_failure_downstream
  split_ifs
  · rfl
  · rfl

/-- **`on_send` looks at a message before it is passed on, and at nothing after that.** -/
theorem on_send_eq (S : Sodium) (provider_ptr : provider) (p : proto) (io : Io)
    (question : Message) :
    on_send pass S provider_ptr p io question =
      on_send .ok S provider_ptr p io question >>= progress.forward pass := by
  unfold on_send
  cases io.link_over p with
  | in_progress => rfl
  | failed => exact pass_failure_downstream_eq pass question
  | connected =>
      dsimp only
      split_ifs
      · cases provider_ptr.fold S io question with
        | error e => rfl
        | ok m =>
            rw [Result.ok_bind, Result.ok_bind]
            cases io.send p m.query with
            | ok _ => rfl
            | error e =>
                cases e with
                | net_error what => exact pass_failure_downstream_eq pass m
                | _ => rfl
      · rfl

/-- So does `on_receive`. -/
theorem on_receive_eq (S : Sodium) (provider_ptr : provider) (p : proto) (io : Io)
    (question : Message) :
    on_receive pass S provider_ptr p io question =
      on_receive .ok S provider_ptr p io question >>= progress.forward pass := by
  unfold on_receive
  cases io.link_over p with
  | in_progress => rfl
  | failed => exact pass_failure_downstream_eq pass question
  | connected =>
      dsimp only
      cases io.receive p question.query with
      | ok q =>
          dsimp only
          cases provider_ptr.unfold S { question with query := q } with
          | error e => rfl
          | ok m => rfl
      | error e =>
          cases e with
          | net_error what => exact pass_failure_downstream_eq pass question.clear
          | _ => rfl

variable {pass} {S : Sodium} {provider_ptr : provider} {p : proto} {io : Io} {question : Message}

theorem pass_failure_downstream_uncaught (hpass : ∀ m, uncaught (pass m)) (question : Message) :
    uncaught (pass_failure_downstream pass question) := by
  unfold pass_failure_downstream
  split_ifs
  · exact uncaught_bind (hpass _) fun a => uncaught_ok _
  · exact uncaught_ok _

/-- **What leaves `on_send` is no `net_error`**, if passing an answer on throws none: a handler
that encloses all of it takes nothing more than the one around `send`. -/
theorem on_send_uncaught (hpass : ∀ m, uncaught (pass m)) (S : Sodium) (provider_ptr : provider)
    (p : proto) (io : Io) (question : Message) :
    uncaught (on_send pass S provider_ptr p io question) := by
  unfold on_send
  cases io.link_over p with
  | in_progress => exact uncaught_ok _
  | failed => exact pass_failure_downstream_uncaught hpass question
  | connected =>
      dsimp only
      split_ifs
      · refine uncaught_bind (provider.fold_uncaught S provider_ptr io question) fun m => ?_
        cases io.send p m.query with
        | ok _ => exact uncaught_ok _
        | error e =>
            cases e with
            | net_error what => exact pass_failure_downstream_uncaught hpass m
            | _ => exact uncaught_error rfl
      · exact uncaught_ok _

/-- So it is with `on_receive`. -/
theorem on_receive_uncaught (hpass : ∀ m, uncaught (pass m)) (S : Sodium) (provider_ptr : provider)
    (p : proto) (io : Io) (question : Message) :
    uncaught (on_receive pass S provider_ptr p io question) := by
  unfold on_receive
  cases io.link_over p with
  | in_progress => exact uncaught_ok _
  | failed => exact pass_failure_downstream_uncaught hpass question
  | connected =>
      dsimp only
      cases io.receive p question.query with
      | ok q =>
          exact uncaught_bind (provider.unfold_uncaught S provider_ptr _) fun m =>
            uncaught_bind (hpass m) fun a => uncaught_ok _
      | error e =>
          cases e with
          | net_error what => exact pass_failure_downstream_uncaught hpass question.clear
          | _ => exact uncaught_error rfl

variable {next : progress α}

theorem pass_failure_downstream_cases (h : pass_failure_downstream pass question = .ok next) :
    next = .over none ∨ ∃ m a, pass m = .ok a ∧ next = .over (some a) := by
  unfold pass_failure_downstream at h
  split_ifs at h
  · obtain ⟨a, ha, h⟩ := Result.bind_eq_ok.mp h
    exact Or.inr ⟨_, a, ha, (Except.ok.inj h).symm⟩
  · exact Or.inl (Except.ok.inj h).symm

/-- **What `on_send` can do**: it waits, it has sent the question and cleared it, it has nothing
to send, it ends, or it passes a failure on. -/
theorem on_send_cases (h : on_send pass S provider_ptr p io question = .ok next) :
    next = .going .sending question ∨
      (∃ m : Message, m.query.size = 0 ∧ next = .going .receiving m) ∨
      (question.query.size = 0 ∧ next = .going .stopped question) ∨
      next = .over none ∨ ∃ m a, pass m = .ok a ∧ next = .over (some a) := by
  unfold on_send at h
  split at h
  · exact Or.inl (Except.ok.inj h).symm
  · exact Or.inr (Or.inr (Or.inr (pass_failure_downstream_cases h)))
  · split_ifs at h with hsize
    · obtain ⟨m, -, h⟩ := Result.bind_eq_ok.mp h
      split at h
      · exact Or.inr (Or.inr (Or.inr (pass_failure_downstream_cases h)))
      · exact absurd h (by simp)
      · exact Or.inr (Or.inl ⟨m.clear, rfl, (Except.ok.inj h).symm⟩)
    · exact Or.inr (Or.inr (Or.inl ⟨by omega, (Except.ok.inj h).symm⟩))

/-- **What `on_receive` does to a request**: it waits, or it is over. -/
theorem on_receive_progress (h : on_receive pass S provider_ptr p io question = .ok next) :
    next = .going .receiving question ∨ ∃ passed, next = .over passed := by
  have hfailure : ∀ {m : Message}, pass_failure_downstream pass m = .ok next →
      ∃ passed, next = .over passed := by
    intro m hm
    rcases pass_failure_downstream_cases hm with hnext | ⟨m', a, -, hnext⟩
    · exact ⟨none, hnext⟩
    · exact ⟨some a, hnext⟩
  unfold on_receive at h
  split at h
  · exact Or.inl (Except.ok.inj h).symm
  · exact Or.inr (hfailure h)
  · split at h
    · exact Or.inr (hfailure h)
    · exact absurd h (by simp)
    · obtain ⟨m, -, h⟩ := Result.bind_eq_ok.mp h
      obtain ⟨a, -, h⟩ := Result.bind_eq_ok.mp h
      exact Or.inr ⟨some a, (Except.ok.inj h).symm⟩

end network_upstream

/-- **The try blocks of a request on behalf of a client** take nothing but what the calls on the
socket throw. -/
theorem upstream.callback_uncaught (env : Env) (r : responder) (u : upstream) (io : Io) :
    uncaught (u.callback env r io) := by
  have hpass := r.pass_answer_downstream_uncaught env u.client
  unfold callback
  cases u.stage with
  | sending => exact network_upstream.on_send_uncaught hpass _ _ _ _ _
  | receiving => exact network_upstream.on_receive_uncaught hpass _ _ _ _ _
  | stopped => exact uncaught_ok _
  | closed => exact uncaught_ok _

/-- **So it is with a request for a certificate**, which processes what it passes on. -/
theorem certifier.on_send_uncaught (S : Sodium) (now : ℕ) (pending : Bool) (jitter : ℕ)
    (c : certifier) (io : Io) (question : Message) :
    uncaught (c.on_send (fun m => c.process_response S now pending jitter m.query) S io question) ∧
      uncaught (c.on_receive S now pending jitter io question) := by
  have hpass : ∀ m : Message, uncaught (c.process_response S now pending jitter m.query) :=
    fun m => c.process_response_uncaught S now pending jitter m.query
  refine ⟨?_, network_upstream.on_receive_uncaught hpass _ _ _ _ _⟩
  have hsend := network_upstream.on_send_uncaught hpass S c.provider_copy c.tcp_only io question
  unfold certifier.on_send
  split
  · split_ifs
    · exact uncaught_error rfl
    · exact uncaught_ok _
  · exact hsend

/-! ## Receiving -/

/-- What `on_receive` needs, where `P` is what passing an answer needs. -/
def Receives (P : Message → Prop) (S : Sodium) (provider_ptr : provider) (p : proto) (io : Io)
    (question : Message) : Prop :=
  match io.link_over p with
  | .in_progress => True
  | .failed =>
      question.query.size > 0 ∧ question.query.is_dns = true → P question.mark_servfail
  | .connected =>
      match io.receive p question.query with
      | .error e => e.is_net_error = true
      | .ok q => ∃ answer, provider_ptr.unfold S { question with query := q } = .ok answer ∧ P answer

namespace network_upstream

variable {α : Type} {pass : Message → Result α} {P : Message → Prop}

theorem pass_failure_downstream_returns (hP : ∀ m, (pass m).returns ↔ P m) (question : Message) :
    (pass_failure_downstream pass question).returns ↔
      (question.query.size > 0 ∧ question.query.is_dns = true → P question.mark_servfail) := by
  unfold pass_failure_downstream
  split_ifs with h
  · rw [Result.returns_bind_iff fun _ => Result.returns_ok _, hP]
    exact ⟨fun h' _ => h', fun h' => h' h⟩
  · exact iff_of_true (Result.returns_ok _) fun h' => absurd h' h

/-- **When `on_receive` returns**, for any class of request. -/
theorem on_receive_returns (hP : ∀ m, (pass m).returns ↔ P m) (S : Sodium) (provider_ptr : provider)
    (p : proto) (io : Io) (question : Message) :
    (on_receive pass S provider_ptr p io question).returns ↔
      Receives P S provider_ptr p io question := by
  unfold on_receive Receives
  cases io.link_over p with
  | in_progress => exact iff_of_true (Result.returns_ok _) trivial
  | failed => exact pass_failure_downstream_returns hP question
  | connected =>
      dsimp only
      cases io.receive p question.query with
      | error e =>
          cases e with
          | net_error what =>
              refine iff_of_true ?_ rfl
              -- the question was cleared, so there is no failure to pass on
              refine (pass_failure_downstream_returns hP question.clear).mpr fun h => ?_
              exact absurd h.1 (lt_irrefl 0)
          | _ => exact iff_of_false (Result.not_returns_error _) (by simp [Exn.is_net_error])
      | ok q =>
          dsimp only
          rw [Result.returns_bind]
          constructor
          · rintro ⟨m, hm, h⟩
            rw [Result.returns_bind_iff fun _ => Result.returns_ok _, hP] at h
            exact ⟨m, hm, h⟩
          · rintro ⟨m, hm, h⟩
            refine ⟨m, hm, ?_⟩
            rw [Result.returns_bind_iff fun _ => Result.returns_ok _, hP]
            exact h

end network_upstream

/-- **A reply and the daemon.** For every state of a request and whatever the socket
answers, `on_receive` returns exactly when `Receives` holds: the bytes make up a
message or fail with a `net_error`, the message decrypts if it is encrypted, and then
an answer to a client meets `AnswerReturns`, and the answers in a reply with
certificates parse. -/
theorem on_receive_returns_iff {env : Env} (hS : env.S.Lawful)
    (hseals : ∀ c, (env.S.box c).Seals) :
    (∀ (r : responder) (u : upstream) (io : Io), (u.on_receive env r io).returns ↔
      Receives (r.AnswerReturns env u.client) env.S u.provider u.provider.net_proto io
        u.question) ∧
    (∀ (now : ℕ) (pending : Bool) (jitter : ℕ) (c : certifier) (io : Io) (question : Message),
      (c.on_receive env.S now pending jitter io question).returns ↔
        Receives (fun m => m.query.answers.returns) env.S c.provider_copy c.tcp_only io
          question) := by
  constructor
  · intro r u io
    apply network_upstream.on_receive_returns
    exact fun m => responder.pass_answer_downstream_returns hS hseals r u.client m
  · intro now pending jitter c io question
    apply network_upstream.on_receive_returns
    exact fun m => certifier.process_response_returns env.S now pending jitter c m.query

/-! ### A reply that is passed on, and one that is not -/

/-- A UDP socket that has one datagram. -/
def sampleIo (datagram : List UInt8) : Io where
  link := .connected
  sent := .whole
  datagram := some datagram
  socket := []
  rnd := fun _ => 0
  session_nonce := Block.zero 12

/-- A plain provider on UDP. -/
def sampleProvider : provider := ⟨⟨.ipv4, [127, 0, 0, 1], 53, rfl⟩, .udp, none⟩

/-- A request for the question `a.` that was sent. -/
def sampleUpstream : upstream where
  provider := sampleProvider
  question := (Message.of_query (sampleQuestion [1, 97, 0] (by decide))).clear
  client := ⟨.udp, .of_query (sampleQuestion [1, 97, 0] (by decide))⟩
  stage := .receiving

/-- A reply with a header and a code. -/
def sampleReply (rcode : UInt8) : List UInt8 := [0, 1, 0x81, rcode, 0, 0, 0, 0, 0, 0, 0, 0]

/-- The refusal of a provider is passed on. -/
theorem on_receive_returns_iff_refusal :
    (sampleUpstream.on_receive sampleEnv sampleResponder (sampleIo (sampleReply 5))).returns := by
  refine ((on_receive_returns_iff Sodium.tagged_lawful Sodium.tagged_seals).1 sampleResponder
    sampleUpstream (sampleIo (sampleReply 5))).mpr ?_
  refine ⟨_, rfl, ?_, ?_, ?_, Or.inl rfl⟩
  · refine ⟨by decide, [], 12, [], 12, rfl, ?_, rfl, ?_⟩
    · exact fun r hr => absurd hr (by simp)
    · exact fun r hr => absurd hr (by simp)
  · intro h
    exact absurd h (by decide)
  · intro s key n hs
    have hnone : sampleResponder.crypt.bind crypt_part.server = none := rfl
    rw [hnone] at hs
    exact absurd hs (by simp)

/-- Twelve bytes from a provider stop the daemon: there is no text for the code 11. -/
theorem on_receive_unknown_code :
    sampleUpstream.on_receive sampleEnv sampleResponder (sampleIo (sampleReply 11)) =
      .error (.logic_error "Invalid DNS RCODE") := by
  rfl

end Cdns
