/-
Messages that the program builds: a question about a host name, and the answers that
are added to it (`dns/srcz/query.cpp`).

`Built q id name typ calls` is what holds of a message under construction: it counts
one question and one answer for each call, asks what it was made to ask, and a walk
over its answers shows what each call put in and stops at the end of the message. The
constructor starts it (`of_hostname_built`) and each call keeps it
(`Call.run_built`); `build_parses` reads the parser's side of it off.
-/
import Cdns.Hostname

set_option autoImplicit false

namespace Cdns.Query

open Lib.Storage

/-! ## Host names -/

/-- The text of a host name, and how it is written. -/
structure HostName where
  labels : List Str
  labels_ne : labels ≠ []
  isLabel : ∀ l ∈ labels, IsLabel l
  length_le : (['.'].intercalate labels).length ≤ 255

/-- The labels with dots between them. -/
def HostName.text (name : HostName) : Str := ['.'].intercalate name.labels

/-- The name as it is given: with a final dot, or without. -/
def HostName.given (name : HostName) (dot : Bool) : Str :=
  if dot then name.text ++ ['.'] else name.text

theorem intercalate_concat (ls : List Str) (l : Str) :
    ['.'].intercalate (ls ++ [l]) = dotted ls ++ l := by
  induction ls with
  | nil => simp
  | cons l' ls ih =>
      rw [List.cons_append, List.intercalate_cons_of_ne_nil (by simp), ih, dotted_cons]
      simp

/-- Characters other than dots go to the label in progress. -/
theorem split_append_of_no_dot {l : Str} (hl : '.' ∉ l) (cur rest : Str) :
    split cur (l ++ rest) = split (cur ++ l) rest := by
  induction l generalizing cur with
  | nil => simp
  | cons ch l ih =>
      rw [List.mem_cons, not_or] at hl
      rw [List.cons_append, split, if_neg (Ne.symm hl.1), ih hl.2, List.append_assoc,
        List.singleton_append]

/-- A text made of labels is taken apart into them. -/
theorem split_dotted {ls : List Str} {last : Str} (hls : ∀ l ∈ ls, '.' ∉ l) (hlast : '.' ∉ last) :
    split [] (dotted ls ++ last) = (ls, last) := by
  induction ls with
  | nil =>
      have := split_append_of_no_dot hlast [] []
      rw [List.append_nil, List.nil_append] at this
      rw [dotted_nil, List.nil_append, this, split]
  | cons l ls ih =>
      obtain ⟨hl, hls⟩ := List.forall_mem_cons.mp hls
      rw [dotted_cons, List.append_assoc, split_append_of_no_dot hl, List.cons_append, split,
        if_pos rfl, ih hls]
      rfl

theorem IsLabel.no_dot {l : Str} (h : IsLabel l) : '.' ∉ l := by
  intro hdot
  have := h.2.2 '.' hdot
  exact absurd this (by decide)

namespace HostName

theorem exists_concat (name : HostName) : ∃ ls l, name.labels = ls ++ [l] ∧ l ≠ [] := by
  have hlast := List.dropLast_append_getLast name.labels_ne
  refine ⟨name.labels.dropLast, name.labels.getLast name.labels_ne, hlast.symm, ?_⟩
  have hlabel := name.isLabel _ (List.getLast_mem name.labels_ne)
  exact List.length_pos_iff.mp hlabel.1

theorem dotted_labels (name : HostName) : dotted name.labels = name.text ++ ['.'] := by
  obtain ⟨ls, l, hl, -⟩ := name.exists_concat
  rw [text, hl, intercalate_concat, dotted_append, dotted_cons, dotted_nil, List.append_assoc]

/-- However it is written, the name has its labels. -/
theorem labels_given (name : HostName) (dot : Bool) : Query.labels (name.given dot) = name.labels := by
  obtain ⟨ls, l, hl, hne⟩ := name.exists_concat
  have hdots : ∀ m ∈ name.labels, '.' ∉ m := fun m hm => (name.isLabel m hm).no_dot
  cases dot with
  | true =>
      have hgiven : name.given true = dotted name.labels ++ [] := by
        rw [List.append_nil, name.dotted_labels]
        rfl
      rw [Query.labels, hgiven, split_dotted hdots (by simp)]
      rfl
  | false =>
      have hgiven : name.given false = dotted ls ++ l := by
        rw [← intercalate_concat, ← hl]
        rfl
      rw [hl] at hdots
      rw [Query.labels, hgiven, split_dotted (fun m hm => hdots m (by simp [hm]))
        (hdots l (by simp)), hl]
      exact if_neg hne

theorem mem_text {name : HostName} {ch : Char} (h : ch ∈ name.text ++ ['.']) :
    ch = '.' ∨ is_hostname_char ch = true := by
  rw [← name.dotted_labels, dotted, List.mem_flatMap] at h
  obtain ⟨l, hl, hch⟩ := h
  rcases List.mem_append.mp hch with hch | hch
  · exact Or.inr ((name.isLabel l hl).2.2 ch hch)
  · exact Or.inl (List.mem_singleton.mp hch)

/-- The constructor takes the name. -/
theorem of_hostname_returns (name : HostName) (dot : Bool) (typ id : ℕ) :
    (of_hostname (name.given dot) typ id).returns := by
  have e₁ : max_host_name_length = 256 := rfl
  have hlen : name.text.length ≤ 255 := name.length_le
  apply Query.of_hostname_returns.mpr
  refine ⟨?_, ?_, ?_⟩
  · unfold given
    split_ifs
    · rw [List.length_append, List.length_singleton]
      omega
    · omega
  · intro ch hch
    apply @mem_text name
    unfold given at hch
    split_ifs at hch
    · exact hch
    · exact List.mem_append_left _ hch
  · intro l hl
    rw [labels_given] at hl
    have := (name.isLabel l hl).2.1
    omega

end HostName

/-! ## Calls -/

/-- A call that adds an answer. -/
inductive Call where
  | add_answer (data : List UInt8) (typ : ℕ) (ttl : ℤ)
  | set_txt_answer (txt_data : List UInt8) (ttl : ℤ)

namespace Call

/-- The call on a message. -/
def run (q : Query) : Call → Result Query
  | add_answer data typ ttl => q.add_answer data typ ttl
  | set_txt_answer txt_data ttl => q.set_txt_answer txt_data ttl

/-- The data of the answer. -/
def data : Call → List UInt8
  | add_answer data _ _ => data
  | set_txt_answer txt_data _ => UInt8.ofNat txt_data.length :: txt_data

/-- The type of the answer. -/
def typ : Call → ℕ
  | add_answer _ typ _ => typ
  | set_txt_answer _ _ => rr_type.txt.code

/-- The TTL of the answer. -/
def ttl : Call → ℤ
  | add_answer _ _ ttl => ttl
  | set_txt_answer _ ttl => ttl

/-- The text that was given, of a call that was given one. -/
def text : Call → Option (List UInt8)
  | add_answer _ _ _ => none
  | set_txt_answer txt_data _ => some txt_data

/-- The arguments are of their types, and a text has 1 to 255 bytes. -/
structure Valid (c : Call) : Prop where
  typ_lt : c.typ < 65536
  ttl_ge : -2147483648 ≤ c.ttl
  ttl_lt : c.ttl < 2147483648
  text_length : ∀ t, c.text = some t → 1 ≤ t.length ∧ t.length ≤ 255

/-- The bytes that the answer takes. -/
def size (c : Call) : ℕ := 12 + c.data.length

end Call

/-- The calls, one after the other. -/
def run_calls : Query → List Call → Result Query
  | q, [] => .ok q
  | q, c :: cs => do
      let q ← c.run q
      run_calls q cs

/-- A message: the question, then the answers. -/
def build (hostname : Str) (typ id : ℕ) (calls : List Call) : Result Query := do
  let q ← of_hostname hostname typ id
  run_calls q calls

/-- What a record says: its type, class, TTL and data. -/
def rr.content (r : rr) : ℕ × ℕ × ℤ × List UInt8 := (r.type, r.class_, r.ttl, r.data)

/-- What the answer of a call says. -/
def Call.content (c : Call) : ℕ × ℕ × ℤ × List UInt8 :=
  (c.typ, rr_class.internet.code, c.ttl, c.data)

/-! ## A message under construction -/

/-- The header of a message with `n` answers. -/
def built_header (id n : ℕ) : message_header :=
  { question_header id with qr := decide (0 < n), ancount := n }

/-- The message asks for `name` and `typ`, and answers with what the calls put in. -/
structure Built (q : Query) (id : ℕ) (name : Str) (typ : ℕ) (calls : List Call) : Prop where
  header : q.header = built_header id calls.length
  walk : ∃ r off rs, q.get_rr_question 12 = .ok (r, off) ∧ r.owner = name ∧ r.type = typ ∧
    r.class_ = rr_class.internet.code ∧ collect q.get_rr calls.length off = .ok (rs, q.size) ∧
    rs.map rr.content = calls.map Call.content

/-- The constructor builds a message without answers. -/
theorem of_hostname_built {hostname : Str} {typ id : ℕ} {q : Query} (htyp : typ < 65536)
    (hid : id < 65536) (h : of_hostname hostname typ id = .ok q)
    (hne : ∀ l ∈ labels hostname, l ≠ [])
    (hlen : (dotted (labels hostname)).length ≤ max_host_name_length) :
    Built q id (dotted (labels hostname)) typ [] := by
  have hname := get_rr_name_of_hostname h hne
  rw [if_pos hlen] at hname
  obtain ⟨r, hr, howner, htype, hclass⟩ := get_rr_question_of_hostname htyp h hname
  obtain ⟨-, -, -, hheader⟩ := of_hostname_wire h
  exact ⟨hheader hid, r, q.size, [], hr, howner, htype, hclass, rfl, rfl⟩

/-- Both calls come to `add_answer`. -/
theorem Call.run_eq {c : Call} (hc : c.Valid) (q : Query) :
    c.run q = q.add_answer c.data c.typ c.ttl := by
  cases c with
  | add_answer data typ ttl => rfl
  | set_txt_answer txt_data ttl =>
      have := (hc.text_length txt_data rfl).2
      rw [run, Query.set_txt_answer, if_neg (by omega)]
      rfl

/-- **A call keeps it**: with room for the answer it returns, and the message is longer
by the answer. -/
theorem Call.run_built {q : Query} {id typ : ℕ} {name : Str} {calls : List Call} {c : Call}
    (hq : Built q id name typ calls) (hc : c.Valid) (hfit : q.size + c.size ≤ max_size) :
    ∃ q', c.run q = .ok q' ∧ Built q' id name typ (calls ++ [c]) ∧ q'.size = q.size + c.size := by
  obtain ⟨r, off, rs, hr, howner, htype, hclass, hrs, hcontent⟩ := hq.walk
  have e₁ : max_size = 55535 := rfl
  have hqd : q.header.qdcount = 1 := by
    rw [hq.header]
    rfl
  have han : q.header.ancount = calls.length := by
    rw [hq.header]
    rfl
  rw [Call.size] at hfit
  have hquestions := questions_of_rr_question hqd hr
  -- the answers that are there parse, and end with the message
  have hreturns : (q.add_answer c.data c.typ c.ttl).returns := by
    apply add_answer_returns.mpr
    refine ⟨hfit, hqd, (rs, q.size), ?_⟩
    rw [answers, hquestions, han]
    exact hrs
  obtain ⟨q', hadd⟩ := hreturns
  obtain ⟨-, -, qs, off', rs', e, hqs, hrs', hsize, hbytes⟩ := add_answer_spec hadd
  obtain ⟨rfl, rfl⟩ : qs = [r] ∧ off' = off := by
    rw [hquestions] at hqs
    obtain ⟨h₁, h₂⟩ := Prod.mk.inj (Except.ok.inj hqs)
    exact ⟨h₁.symm, h₂.symm⟩
  obtain ⟨rfl, rfl⟩ : rs' = rs ∧ e = q.size := by
    rw [han, hrs] at hrs'
    obtain ⟨h₁, h₂⟩ := Prod.mk.inj (Except.ok.inj hrs')
    exact ⟨h₁.symm, h₂.symm⟩
  have hoff := (get_rr_question_bounds hr).1
  have hcount := (collect_bounds hrs).1
  refine ⟨q', by rw [c.run_eq hc, hadd], ⟨?_, ?_⟩, by rw [hsize, Call.size]; omega⟩
  · -- the count does not wrap
    rw [add_answer_header hadd, answered_header, hq.header, built_header, built_header,
      List.length_append, List.length_singleton]
    dsimp only
    rw [Nat.mod_eq_of_lt (by omega), decide_eq_true (Nat.succ_pos _)]
  · have hr' := get_rr_question_extend hr
      (fun i h₁ h₂ => add_answer_bytes hbytes i h₁ (by omega)) (by omega) (by omega)
    have hold := collect_extend hrs
      (fun i h₁ h₂ => add_answer_bytes hbytes i (by omega) h₂) (by omega : q.size ≤ q'.size)
      (by omega)
    have hnew := get_rr_add_answer (by omega) hbytes hsize
    have hlast : collect q'.get_rr 1 q.size =
        .ok ([answer_rr c.data c.typ c.ttl q.size], q'.size) :=
      collect_succ_eq_ok.mpr ⟨_, q'.size, [], hnew, rfl, rfl⟩
    refine ⟨r, off', rs' ++ [answer_rr c.data c.typ c.ttl q.size], hr', howner, htype, hclass, ?_, ?_⟩
    · rw [List.length_append, List.length_singleton]
      exact collect_append hold hlast
    · rw [List.map_append, List.map_append, hcontent, List.map_singleton, List.map_singleton,
        rr.content, Call.content, answer_rr]
      dsimp only
      rw [Nat.mod_eq_of_lt hc.typ_lt, int32_uint32 hc.ttl_ge hc.ttl_lt]

/-- Any number of calls, by induction over them. -/
theorem run_calls_built {q : Query} {id typ : ℕ} {name : Str} {calls cs : List Call}
    (hq : Built q id name typ calls) (hcs : ∀ c ∈ cs, c.Valid)
    (hfit : q.size + (cs.map Call.size).sum ≤ max_size) :
    ∃ q', run_calls q cs = .ok q' ∧ Built q' id name typ (calls ++ cs) := by
  induction cs generalizing q calls with
  | nil =>
      rw [List.append_nil]
      exact ⟨q, rfl, hq⟩
  | cons c cs ih =>
      obtain ⟨hc, hcs⟩ := List.forall_mem_cons.mp hcs
      rw [List.map_cons, List.sum_cons] at hfit
      obtain ⟨q₁, hrun, hq₁, hsize⟩ := Call.run_built hq hc (by omega)
      obtain ⟨q', hrest, hq'⟩ := ih hq₁ hcs (by omega)
      rw [List.append_assoc, List.singleton_append] at hq'
      refine ⟨q', ?_, hq'⟩
      rw [run_calls, hrun]
      exact hrest

/-! ## Texts -/

/-- The texts among the contents of records. -/
def txt_data (rs : List rr) : List (List UInt8) :=
  (rs.filter fun r => r.type = rr_type.txt.code ∧ r.class_ = rr_class.internet.code).map rr.data

theorem foldl_txt_data (rs : List rr) (acc : List (List UInt8)) :
    rs.foldl (fun result rr => if rr.type = rr_type.txt.code ∧ rr.class_ = rr_class.internet.code
      then result ++ [rr.data] else result) acc = acc ++ txt_data rs := by
  induction rs generalizing acc with
  | nil => simp [txt_data]
  | cons r rs ih =>
      rw [List.foldl_cons, ih]
      by_cases h : r.type = rr_type.txt.code ∧ r.class_ = rr_class.internet.code
      · simp [txt_data, h]
      · simp [txt_data, h]

/-- `find_txt_answers` over answers that parse. -/
theorem find_txt_answers_eq {q : Query} {r : rr} {off e : ℕ} {rs : List rr}
    (hqd : q.header.qdcount = 1) (hr : q.get_rr_question 12 = .ok (r, off))
    (hrs : collect q.get_rr q.header.ancount off = .ok (rs, e)) :
    q.find_txt_answers = .ok (txt_data rs) := by
  obtain ⟨x, hskip⟩ := (skip_questions_returns q off).mpr ⟨[r], questions_of_rr_question hqd hr⟩
  have hget := get_rrs_eq_ok.mpr ⟨e, hrs⟩
  rw [find_txt_answers]
  dsimp only
  rw [hskip, Result.ok_bind]
  dsimp only
  rcases for_each_get_rr q (fun result rr => if rr.type = rr_type.txt.code ∧
      rr.class_ = rr_class.internet.code then result ++ [rr.data] else result)
      q.header.ancount off ([] : List (List UInt8)) with ⟨err, herr, -⟩ | ⟨rs', o, hrs', hloop⟩
  · rw [hget] at herr
    exact absurd herr (by simp)
  · rw [hget] at hrs'
    rw [hloop, Result.ok_bind, ← Except.ok.inj hrs', foldl_txt_data, List.nil_append]

/-- When only `set_txt_answer` makes texts, the texts in the answers are those that were
given. -/
theorem txt_data_of_calls {rs : List rr} {calls : List Call}
    (hcontent : rs.map rr.content = calls.map Call.content)
    (htxt : ∀ c ∈ calls, c.typ = rr_type.txt.code → c.text.isSome = true) :
    (txt_data rs).map (fun arr => arr.drop 1) = calls.filterMap Call.text := by
  induction calls generalizing rs with
  | nil =>
      rw [List.map_nil, List.map_eq_nil_iff] at hcontent
      rw [hcontent]
      rfl
  | cons c cs ih =>
      obtain ⟨r, rs', rfl, hr, hrs⟩ := List.map_eq_cons_iff.mp hcontent
      obtain ⟨hc, hcs⟩ := List.forall_mem_cons.mp htxt
      have hrest := ih hrs hcs
      simp only [rr.content, Call.content, Prod.mk.injEq] at hr
      obtain ⟨htype, hclass, -, hdata⟩ := hr
      cases c with
      | add_answer data typ ttl =>
          have hother : ¬ (r.type = rr_type.txt.code ∧ r.class_ = rr_class.internet.code) := by
            rintro ⟨h, -⟩
            rw [htype] at h
            exact absurd (hc h) (by simp [Call.text])
          simp only [txt_data, List.filter_cons, hother, decide_false, List.filterMap_cons,
            Call.text]
          exact hrest
      | set_txt_answer text ttl =>
          have hsame : r.type = rr_type.txt.code ∧ r.class_ = rr_class.internet.code :=
            ⟨htype, hclass⟩
          simp only [txt_data, List.filter_cons, hsame, and_self, decide_true, if_true,
            List.map_cons, List.filterMap_cons, Call.text]
          rw [hdata]
          exact congrArg (text :: ·) hrest

/-! ## The builder and the parser -/

/-- **The parser reads what the builder built.** For every host name, type, id and
sequence of answers that fits, building returns, and the message has the id, the counts
and the question it was made with, its answers in order, and no byte behind them; the
texts are those that were given. -/
theorem build_parses (name : HostName) (dot : Bool) {typ id : ℕ} {calls : List Call}
    (htyp : typ < 65536) (hid : id < 65536) (hcalls : ∀ c ∈ calls, c.Valid)
    (hfit : 18 + name.text.length + (calls.map Call.size).sum ≤ max_size) :
    ∃ q, build (name.given dot) typ id calls = .ok q ∧
      q.header = { question_header id with qr := decide (0 < calls.length), ancount := calls.length } ∧
      q.get_question = .ok (name.text ++ ['.'], rr_class.internet.code, typ) ∧
      (∃ r off rs, q.get_rr_question message_header.wire_size = .ok (r, off) ∧
        collect q.get_rr calls.length off = .ok (rs, q.size) ∧
        rs.map rr.content = calls.map Call.content) ∧
      ((∀ c ∈ calls, c.typ = rr_type.txt.code → c.text.isSome = true) →
        q.get_txt_answer = .ok (calls.filterMap Call.text)) := by
  have e₁ : max_host_name_length = 256 := rfl
  have hlabels := name.labels_given dot
  have htext := name.dotted_labels
  have hlen : name.text.length ≤ 255 := name.length_le
  -- the question
  obtain ⟨q₀, hq₀⟩ := name.of_hostname_returns dot typ id
  have hbuilt₀ := of_hostname_built htyp hid hq₀
    (fun l hl => by
      rw [hlabels] at hl
      exact List.length_pos_iff.mp (name.isLabel l hl).1)
    (by rw [hlabels, htext, List.length_append, List.length_singleton]; omega)
  have hsize₀ := (of_hostname_wire hq₀).1
  rw [hlabels, htext] at hbuilt₀ hsize₀
  rw [List.length_append, List.length_singleton] at hsize₀
  -- the answers
  obtain ⟨q, hrun, hbuilt⟩ := run_calls_built hbuilt₀ hcalls (by omega)
  rw [List.nil_append] at hbuilt
  obtain ⟨r, off, rs, hr, howner, htype, hclass, hrs, hcontent⟩ := hbuilt.walk
  have hqd : q.header.qdcount = 1 := by
    rw [hbuilt.header]
    rfl
  have han : q.header.ancount = calls.length := by
    rw [hbuilt.header]
    rfl
  refine ⟨q, ?_, hbuilt.header, ?_, ⟨r, off, rs, hr, hrs, hcontent⟩, fun htxt => ?_⟩
  · rw [build, hq₀]
    exact hrun
  · rw [get_question_of_rr_question hqd hr, howner, htype, hclass]
  · rw [← han] at hrs
    rw [get_txt_answer, find_txt_answers_eq hqd hr hrs, Result.ok_bind,
      txt_data_of_calls hcontent htxt]

/-- A name, with an address and a text for it. -/
def sampleHostName : HostName where
  labels := ["www".toList, "example".toList]
  labels_ne := by decide
  isLabel := by decide
  length_le := by decide

theorem build_parses_two_answers :
    ∃ q, build (sampleHostName.given false) 16 7
        [.add_answer [127, 0, 0, 1] 1 60, .set_txt_answer [104, 105] 30] = .ok q ∧
      q.get_question = .ok ("www.example.".toList, 1, 16) ∧ q.get_txt_answer = .ok [[104, 105]] := by
  have hvalid : ∀ c ∈ [Call.add_answer [127, 0, 0, 1] 1 60, .set_txt_answer [104, 105] 30],
      c.Valid := by
    intro c hc
    rcases List.mem_cons.mp hc with rfl | hc
    · exact ⟨by decide, by decide, by decide, fun t ht => absurd ht (by simp [Call.text])⟩
    · rw [List.mem_singleton.mp hc]
      refine ⟨by decide, by decide, by decide, fun t ht => ?_⟩
      rw [← Option.some.inj ht]
      decide
  obtain ⟨q, hq, -, hquestion, -, htxt⟩ := build_parses sampleHostName false
    (by decide : (16 : ℕ) < 65536) (by decide : (7 : ℕ) < 65536) hvalid (by decide)
  exact ⟨q, hq, hquestion, htxt (by decide)⟩

end Cdns.Query
