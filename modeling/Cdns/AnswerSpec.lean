/-
When the walks over a message return, and what an added answer does to it.

`collect` is the walk itself: the records a loop reads and the offset it stops at.
Each function that loops over questions and answers returns exactly when `collect`
does and its body accepts every record (`for_each_returns`), which turns the
failures of `short_info`, `host_type_info`, `find_txt_answers` and `add_answer`
into conditions on the bytes of the message.

A walk stops where its last record ends, so it does not see what comes behind
(`collect_extend`). That gives the records of a message with an added answer: the
answers that were there, the new one, and nothing more. Whatever followed the
answers is cut off while the header still counts it, so such a message can be
walked over exactly when nothing followed (`records_add_answer_iff`).
-/
import Cdns.Answer
import Cdns.QuerySpec

set_option autoImplicit false

namespace Cdns

open Lib.Storage

/-! ## Headers -/

namespace message_header

/-- The fields fit into their bits. -/
structure Valid (h : message_header) : Prop where
  id : h.id < 65536
  opcode : h.opcode < 16
  rcode : h.rcode < 16
  z : h.z < 8
  qdcount : h.qdcount < 65536
  ancount : h.ancount < 65536
  nscount : h.nscount < 65536
  arcount : h.arcount < 65536

theorem read_valid (b : Buffer) : (read b).Valid where
  id := be16_lt _ _
  opcode := Nat.mod_lt _ (by decide)
  rcode := Nat.mod_lt _ (by decide)
  z := Nat.mod_lt _ (by decide)
  qdcount := be16_lt _ _
  ancount := be16_lt _ _
  nscount := be16_lt _ _
  arcount := be16_lt _ _

theorem bit_of_add (v : Bool) (n i : ℕ) (h : n / 2 ^ i % 2 = v.toNat) : bit n i = v := by
  unfold bit
  rw [h]
  cases v <;> rfl

/-- A header is read as it was written. -/
theorem read_write (b : Buffer) {h : message_header} (hv : h.Valid) :
    read (write b 0 h.wire) = h := by
  obtain ⟨id, rd, tc, aa, opcode, qr, rcode, z, ra, qdcount, ancount, nscount, arcount⟩ := h
  obtain ⟨h₁, h₂, h₃, h₄, h₅, h₆, h₇, h₈⟩ := hv
  dsimp only at h₁ h₂ h₃ h₄ h₅ h₆ h₇ h₈
  have hrd := rd.toNat_le
  have htc := tc.toNat_le
  have haa := aa.toNat_le
  have hqr := qr.toNat_le
  have hra := ra.toNat_le
  have hnum : ∀ n < 65536, (UInt8.ofNat (n / 256)).toNat * 256 + (UInt8.ofNat n).toNat = n := by
    intro n hn
    rw [UInt8.toNat_ofNat', UInt8.toNat_ofNat']
    omega
  -- the two bytes of flags as numbers
  have hx : (UInt8.ofNat (rd.toNat + 2 * tc.toNat + 4 * aa.toNat + 8 * opcode
      + 128 * qr.toNat)).toNat = rd.toNat + 2 * tc.toNat + 4 * aa.toNat + 8 * opcode
        + 128 * qr.toNat := by
    rw [UInt8.toNat_ofNat']
    omega
  have hy : (UInt8.ofNat (rcode + 16 * z + 128 * ra.toNat)).toNat =
      rcode + 16 * z + 128 * ra.toNat := by
    rw [UInt8.toNat_ofNat']
    omega
  have hrd' := bit_of_add rd _ 0 (by omega : (rd.toNat + 2 * tc.toNat + 4 * aa.toNat + 8 * opcode
    + 128 * qr.toNat) / 2 ^ 0 % 2 = rd.toNat)
  have htc' := bit_of_add tc _ 1 (by omega : (rd.toNat + 2 * tc.toNat + 4 * aa.toNat + 8 * opcode
    + 128 * qr.toNat) / 2 ^ 1 % 2 = tc.toNat)
  have haa' := bit_of_add aa _ 2 (by omega : (rd.toNat + 2 * tc.toNat + 4 * aa.toNat + 8 * opcode
    + 128 * qr.toNat) / 2 ^ 2 % 2 = aa.toNat)
  have hqr' := bit_of_add qr _ 7 (by omega : (rd.toNat + 2 * tc.toNat + 4 * aa.toNat + 8 * opcode
    + 128 * qr.toNat) / 2 ^ 7 % 2 = qr.toNat)
  have hra' := bit_of_add ra _ 7 (by omega : (rcode + 16 * z + 128 * ra.toNat) / 2 ^ 7 % 2 =
    ra.toNat)
  have hop : (rd.toNat + 2 * tc.toNat + 4 * aa.toNat + 8 * opcode + 128 * qr.toNat) / 8 % 16 =
      opcode := by omega
  have hrc : (rcode + 16 * z + 128 * ra.toNat) % 16 = rcode := by omega
  have hz : (rcode + 16 * z + 128 * ra.toNat) / 16 % 8 = z := by omega
  have hwrite : ∀ i < 12, write b 0 (wire ⟨id, rd, tc, aa, opcode, qr, rcode, z, ra, qdcount,
      ancount, nscount, arcount⟩) i = (wire ⟨id, rd, tc, aa, opcode, qr, rcode, z, ra, qdcount,
        ancount, nscount, arcount⟩).getD i 0 := by
    intro i hi
    exact write_apply_inside b (Nat.zero_le _) (by rw [wire_length]; omega)
  rw [read, be16, be16, be16, be16, be16]
  rw [hwrite 0 (by omega), hwrite (0 + 1) (by omega), hwrite 2 (by omega), hwrite 3 (by omega),
    hwrite 4 (by omega), hwrite (4 + 1) (by omega), hwrite 6 (by omega), hwrite (6 + 1) (by omega),
    hwrite 8 (by omega), hwrite (8 + 1) (by omega), hwrite 10 (by omega), hwrite (10 + 1) (by omega)]
  simp only [wire, bytes16, byte2, byte3, List.cons_append, List.nil_append, List.getD_cons_zero,
    List.getD_cons_succ]
  rw [hx, hy, hnum id h₁, hnum qdcount h₅, hnum ancount h₆, hnum nscount h₇, hnum arcount h₈,
    hrd', htc', haa', hqr', hra', hop, hrc, hz]

end message_header

namespace Query

/-! ## Walks -/

/-- The records that a loop reads, and where it ends. -/
def collect (get : ℕ → Result (rr × ℕ)) : ℕ → ℕ → Result (List rr × ℕ)
  | 0, off => .ok ([], off)
  | n + 1, off => do
      let (r, off') ← get off
      let (rs, e) ← collect get n off'
      .ok (r :: rs, e)

/-- The questions, and where they end. -/
def questions (q : Query) : Result (List rr × ℕ) :=
  collect q.get_rr_question q.header.qdcount message_header.wire_size

/-- The answers, and where they end. -/
def answers (q : Query) : Result (List rr × ℕ) := do
  let (_, off) ← q.questions
  collect q.get_rr q.header.ancount off

theorem collect_succ_eq_ok {get : ℕ → Result (rr × ℕ)} {n off e : ℕ} {rs : List rr} :
    collect get (n + 1) off = .ok (rs, e) ↔
      ∃ r off' rs', get off = .ok (r, off') ∧ collect get n off' = .ok (rs', e) ∧ rs = r :: rs' := by
  rw [collect, Result.bind_eq_ok]
  constructor
  · rintro ⟨⟨r, off'⟩, hr, h⟩
    rw [Result.bind_eq_ok] at h
    obtain ⟨⟨rs', e'⟩, hrs, h⟩ := h
    obtain ⟨h₁, h₂⟩ := Prod.mk.inj (Except.ok.inj h)
    rw [h₂] at hrs
    exact ⟨r, off', rs', hr, hrs, h₁.symm⟩
  · rintro ⟨r, off', rs', hr, hrs, rfl⟩
    refine ⟨(r, off'), hr, ?_⟩
    dsimp only
    rw [hrs]
    rfl

/-- **A loop returns** exactly when the walk does and its body takes every record. -/
theorem for_each_returns {σ : Type} (get : ℕ → Result (rr × ℕ)) {body : σ → rr → Result σ}
    {P : rr → Prop} (hbody : ∀ s r, (body s r).returns ↔ P r) (n off : ℕ) (s : σ) (e : ℕ) :
    (∃ s', for_each get body n off s = .ok (e, s')) ↔
      ∃ rs, collect get n off = .ok (rs, e) ∧ ∀ r ∈ rs, P r := by
  -- the state of the loop only matters to whether the body returns, so the induction is over it too
  induction n generalizing off s with
  | zero =>
      rw [for_each, collect]
      constructor
      · rintro ⟨s', h⟩
        obtain ⟨rfl, -⟩ := Prod.mk.inj (Except.ok.inj h)
        exact ⟨[], rfl, fun r hr => absurd hr (by simp)⟩
      · rintro ⟨rs, h, -⟩
        obtain ⟨-, rfl⟩ := Prod.mk.inj (Except.ok.inj h)
        exact ⟨s, rfl⟩
  | succ n ih =>
      rw [for_each]
      simp only [collect_succ_eq_ok, Result.bind_eq_ok]
      constructor
      · -- the first record is the one the body was run on
        rintro ⟨s', ⟨r, off'⟩, hr, s₁, hs₁, h⟩
        obtain ⟨rs', hrs, hP⟩ := (ih off' s₁).mp ⟨s', h⟩
        refine ⟨r :: rs', ⟨r, off', rs', hr, hrs, rfl⟩, ?_⟩
        intro r' hr'
        rcases List.mem_cons.mp hr' with rfl | hr'
        · exact (hbody s r').mp ⟨s₁, hs₁⟩
        · exact hP r' hr'
      · -- and the other way the body returns on it
        rintro ⟨rs, ⟨r, off', rs', hr, hrs, rfl⟩, hP⟩
        obtain ⟨s₁, hs₁⟩ := (hbody s r).mpr (hP r (by simp))
        obtain ⟨s', h⟩ := (ih off' s₁).mpr ⟨rs', hrs, fun r' hr' => hP r' (by simp [hr'])⟩
        exact ⟨s', (r, off'), hr, s₁, hs₁, h⟩

/-- The same for a body that never fails. -/
theorem for_each_returns_pure {σ : Type} (get : ℕ → Result (rr × ℕ)) {body : σ → rr → Result σ}
    (hbody : ∀ s r, (body s r).returns) (n off : ℕ) (s : σ) (e : ℕ) :
    (∃ s', for_each get body n off s = .ok (e, s')) ↔ ∃ rs, collect get n off = .ok (rs, e) := by
  have hbody' : ∀ s r, (body s r).returns ↔ True := fun s r => iff_of_true (hbody s r) trivial
  rw [for_each_returns get hbody']
  simp

theorem get_rrs_eq_ok {q : Query} {n off : ℕ} {rs : List rr} :
    q.get_rrs n off = .ok rs ↔ ∃ e, collect q.get_rr n off = .ok (rs, e) := by
  induction n generalizing off rs with
  | zero =>
      rw [get_rrs, collect]
      constructor
      · intro h
        rw [← Except.ok.inj h]
        exact ⟨off, rfl⟩
      · rintro ⟨e, h⟩
        rw [(Prod.mk.inj (Except.ok.inj h)).1]
  | succ n ih =>
      simp only [collect_succ_eq_ok]
      constructor
      · intro h
        obtain ⟨r, off', rs', hr, hrs, rfl⟩ := get_rrs_succ_eq_ok h
        obtain ⟨e, he⟩ := ih.mp hrs
        exact ⟨e, r, off', rs', hr, he, rfl⟩
      · rintro ⟨e, r, off', rs', hr, he, rfl⟩
        rw [get_rrs, hr, Result.ok_bind]
        dsimp only
        rw [ih.mpr ⟨e, he⟩]
        rfl

/-! ## What the printing functions take -/

/-- An answer that `short_info` has a text for. -/
def Printable (r : rr) : Prop :=
  if r.class_ = rr_class.internet.code then
    (r.type = rr_type.a.code → 4 ≤ r.data.length ∧ r.data.length ≤ 12) ∧
      (r.type = rr_type.aaaa.code → 4 ≤ r.data.length ∧ r.data.length ≤ 20)
  else known_class r.class_

theorem answer_info_returns (net : Inet) (stack : Buffer) (r : rr) :
    (answer_info net stack r).returns ↔ Printable r := by
  -- the two address types have rooms of their own
  have hdist : rr_type.a.code ≠ rr_type.aaaa.code := by decide
  unfold answer_info Printable
  split_ifs with hclass ha haaaa
  · rw [Result.returns_bind_iff fun a => Result.returns_ok _, address.of_bytes_returns, ha]
    exact ⟨fun h => ⟨fun _ => h, fun hc => absurd hc hdist⟩, fun h => h.1 rfl⟩
  · rw [Result.returns_bind_iff fun a => Result.returns_ok _, address.of_bytes_returns, haaaa]
    exact ⟨fun h => ⟨fun hc => absurd hc.symm hdist, fun _ => h⟩, fun h => h.2 rfl⟩
  · exact iff_of_true (Result.returns_ok _) ⟨fun h => absurd h ha, fun h => absurd h haaaa⟩
  · rw [Result.returns_bind_iff fun c => Result.returns_ok _, rr_class_cstr_returns]

theorem rcode_info_returns (q : Query) : q.rcode_info.returns ↔ q.rcode ≤ 10 := by
  unfold rcode_info
  dsimp only
  have hzero : pkt_rcode.noerror.code = 0 := rfl
  split_ifs with h₁ h₂
  · rw [Result.returns_bind_iff fun s => Result.returns_ok _, pkt_rcode_cstr_returns]
  · exact iff_of_true (Result.returns_ok _) (by omega)
  · exact iff_of_true (Result.returns_ok _) (by omega)

/-- **What `short_info` takes**: a known code, questions of known classes, and
answers it can print. -/
theorem short_info_returns (net : Inet) (stack : Buffer) (q : Query) :
    (q.short_info net stack).returns ↔ q.rcode ≤ 10 ∧
      ∃ qs off rs e, q.questions = .ok (qs, off) ∧ (∀ r ∈ qs, known_class r.class_) ∧
        collect q.get_rr q.header.ancount off = .ok (rs, e) ∧ ∀ r ∈ rs, Printable r := by
  -- the bodies of the two loops
  have hquestion : ∀ (result : Str) (r : rr), (do
      let c ← rr_class_cstr r.class_
      (.ok (result ++ ['['] ++ c ++ [' '] ++ rr_type_str r.type ++ "] ".toList ++ r.owner) :
        Result Str)).returns ↔ known_class r.class_ := by
    intro result r
    rw [Result.returns_bind_iff fun c => Result.returns_ok _, rr_class_cstr_returns]
  have hanswer : ∀ (result : Str) (r : rr), (do
      let text ← answer_info net stack r
      (.ok (result ++ [' '] ++ text ++ " TTL: ".toList ++ (toString r.ttl).toList) :
        Result Str)).returns ↔ Printable r := by
    intro result r
    rw [Result.returns_bind_iff fun c => Result.returns_ok _, answer_info_returns]
  -- the second loop starts where the first ends
  rw [short_info, Result.returns_bind, ← rcode_info_returns]
  constructor
  · rintro ⟨result, hres, h⟩
    obtain ⟨⟨off, r₁⟩, h₁, h⟩ := Result.returns_bind.mp h
    obtain ⟨⟨e, r₂⟩, h₂, -⟩ := Result.returns_bind.mp h
    obtain ⟨qs, hqs, hknown⟩ := (for_each_returns _ hquestion _ _ _ _).mp ⟨r₁, h₁⟩
    obtain ⟨rs, hrs, hprint⟩ := (for_each_returns _ hanswer _ _ _ _).mp ⟨r₂, h₂⟩
    exact ⟨⟨result, hres⟩, qs, off, rs, e, hqs, hknown, hrs, hprint⟩
  · rintro ⟨⟨result, hres⟩, qs, off, rs, e, hqs, hknown, hrs, hprint⟩
    obtain ⟨r₁, h₁⟩ := (for_each_returns _ hquestion _ _ result _).mpr ⟨qs, hqs, hknown⟩
    obtain ⟨r₂, h₂⟩ := (for_each_returns _ hanswer _ _ r₁ _).mpr ⟨rs, hrs, hprint⟩
    refine ⟨result, hres, Result.returns_bind.mpr ⟨(off, r₁), h₁, ?_⟩⟩
    exact Result.returns_bind.mpr ⟨(e, r₂), h₂, Result.returns_ok _⟩

/-- `host_type_info` takes every message whose questions parse. -/
theorem host_type_info_returns (q : Query) :
    q.host_type_info.returns ↔ q.questions.returns := by
  rw [host_type_info]
  dsimp only
  rw [Result.returns_bind_iff fun p => Result.returns_ok _]
  constructor
  · rintro ⟨⟨e, s⟩, h⟩
    obtain ⟨qs, hqs⟩ := (for_each_returns_pure _ (fun s r => Result.returns_ok _) _ _ _ _).mp ⟨s, h⟩
    exact ⟨(qs, e), hqs⟩
  · rintro ⟨⟨qs, e⟩, hqs⟩
    obtain ⟨s, h⟩ :=
      (for_each_returns_pure _ (fun s r => Result.returns_ok _) _ _ _ _).mpr ⟨qs, hqs⟩
    exact ⟨(e, s), h⟩

/-- Skipping the questions. -/
theorem skip_questions_returns (q : Query) (off : ℕ) :
    (∃ r, q.skip_questions q.header.qdcount = .ok (off, r)) ↔ ∃ qs, q.questions = .ok (qs, off) :=
  for_each_returns_pure _ (fun _ _ => Result.returns_ok _) _ _ _ _

/-- `find_txt_answers` takes every message whose answers parse. -/
theorem find_txt_answers_returns (q : Query) :
    q.find_txt_answers.returns ↔ q.answers.returns := by
  rw [find_txt_answers, answers]
  dsimp only
  rw [Result.returns_bind, Result.returns_bind]
  constructor
  · rintro ⟨⟨off, r⟩, hskip, h⟩
    obtain ⟨qs, hqs⟩ := (skip_questions_returns q off).mp ⟨r, hskip⟩
    obtain ⟨⟨e, s⟩, h, -⟩ := Result.returns_bind.mp h
    obtain ⟨rs, hrs⟩ := (for_each_returns_pure _ (fun s r => Result.returns_ok _) _ _ _ _).mp ⟨s, h⟩
    exact ⟨(qs, off), hqs, (rs, e), hrs⟩
  · rintro ⟨⟨qs, off⟩, hqs, ⟨rs, e⟩, hrs⟩
    obtain ⟨r, hskip⟩ := (skip_questions_returns q off).mpr ⟨qs, hqs⟩
    obtain ⟨s, h⟩ :=
      (for_each_returns_pure _ (fun s r => Result.returns_ok _) _ _ _ _).mpr ⟨rs, hrs⟩
    exact ⟨(off, r), hskip, Result.returns_bind.mpr ⟨(e, s), h, Result.returns_ok _⟩⟩

/-! ## Walks in a longer or shorter message

A walk depends on the bytes up to where it ends, and on the size only in so far as
it reaches beyond that; the same bytes further on give the same names and records. -/

/-- The name at `off`, found `d` bytes further on. -/
theorem Named.shift {b c : Buffer} {pktlen pktlen' off o : ℕ} {owner owner' : Str}
    (h : Named b pktlen off owner o owner') (d : ℕ)
    (hb : ∀ i, off ≤ i → i < o → b i = c (i + d)) (ho : o + d < pktlen') :
    Named c pktlen' (off + d) owner (o + d) owner' := by
  induction h with
  | @pointer off owner hptr hend =>
      rw [hb off (le_refl _) (by omega)] at hptr
      rw [Nat.add_right_comm]
      exact .pointer hptr (by omega)
  | @root off owner hroot hend =>
      rw [hb off (le_refl _) (by omega)] at hroot
      rw [Nat.add_right_comm]
      exact .root hroot (by omega)
  | @label off o owner owner' hlen hend hchars hshort hrest ih =>
      have hnext := hrest.bounds.1
      have hbyte : c (off + d) = b off := (hb off (le_refl _) (by omega)).symm
      have hstart : (b off).toNat + (off + d + 1) = (b off).toNat + (off + 1) + d := by omega
      -- the label itself lies before the end of the name
      have hlabel : slice c (off + d + 1) (b off).toNat = slice b (off + 1) (b off).toNat := by
        rw [Nat.add_right_comm]
        refine (slice_shift d fun i h₁ h₂ => ?_).symm
        exact hb i (by omega) (by omega)
      refine .label ?_ ?_ ?_ ?_ ?_
      · rw [hbyte]
        exact hlen
      · rw [hbyte, hstart]
        omega
      · rw [hbyte, hlabel]
        exact hchars
      · rw [hbyte, hlabel]
        exact hshort
      · rw [hbyte, hlabel, hstart]
        exact ih (fun i h₁ h₂ => hb i (by omega) h₂) ho

/-- The record `d` bytes further on. -/
def rr.shift (d : ℕ) (r : rr) : rr := { r with rr_off := r.rr_off + d }

section Shift

variable {q a : Query} {off e : ℕ} {r : rr}

theorem get_rr_name_shift {o : ℕ} {owner : Str} (d : ℕ) (h : q.get_rr_name off = .ok (o, owner))
    (hb : ∀ i, off ≤ i → i < o → q.bytes i = a.bytes (i + d)) (ho : o + d < a.size)
    (ha : 12 ≤ a.size) : a.get_rr_name (off + d) = .ok (o + d, owner) := by
  have hlt := (get_rr_name_bounds h).1
  obtain ⟨-, -, hname⟩ := get_rr_name_eq_ok.mp h
  exact get_rr_name_eq_ok.mpr ⟨ha, by omega, hname.shift d hb ho⟩

/-- The record at `off`, found `d` bytes further on. -/
theorem get_rr_shift (d : ℕ) (h : q.get_rr off = .ok (r, e))
    (hb : ∀ i, off ≤ i → i < e → q.bytes i = a.bytes (i + d)) (he : e + d ≤ a.size)
    (ha : 12 ≤ a.size) :
    a.get_rr (off + d) = .ok (r.shift d, e + d) := by
  obtain ⟨hoff, hend, -⟩ := get_rr_bounds h
  rw [get_rr, Result.bind_eq_ok] at h
  obtain ⟨⟨o, owner⟩, hname, h⟩ := h
  dsimp only at h
  split_ifs at h with h₁ h₂
  obtain ⟨hr, he'⟩ := Prod.mk.inj (Except.ok.inj h)
  have hro : r.rr_off = o := by rw [← hr]
  -- the header of the record and its data lie between the two ends
  have hfield : ∀ k, k + 2 ≤ 10 → be16 q.bytes (o + k) = be16 a.bytes (o + d + k) := by
    intro k hk
    rw [Nat.add_right_comm o d k]
    exact be16_shift d (hb _ (by omega) (by omega)) (hb _ (by omega) (by omega))
  have h₀ : be16 q.bytes o = be16 a.bytes (o + d) := hfield 0 (by omega)
  have h₄ : be32 q.bytes (o + 4) = be32 a.bytes (o + d + 4) := by
    rw [be32, be32, hfield 4 (by omega), hfield 6 (by omega)]
  have hdata : slice q.bytes (o + 10) (be16 q.bytes (o + 8)) =
      slice a.bytes (o + d + 10) (be16 q.bytes (o + 8)) := by
    rw [Nat.add_right_comm o d 10]
    refine slice_shift d fun i hi₁ hi₂ => ?_
    exact hb i (by omega) (by omega)
  have hname' := get_rr_name_shift d hname (fun i hi₁ hi₂ => hb i hi₁ (by omega)) (by omega) ha
  rw [get_rr, hname', Result.ok_bind]
  dsimp only
  rw [← hfield 8 (by omega), if_neg (by omega), if_neg (by omega), ← h₀, ← hfield 2 (by omega),
    ← h₄, ← hdata, ← hr, ← he']
  congr 2
  omega

end Shift

section Extend

variable {q a : Query} {off e : ℕ} {r : rr}

theorem get_rr_name_extend {o : ℕ} {owner : Str} (h : q.get_rr_name off = .ok (o, owner))
    (hb : ∀ i, off ≤ i → i < o → q.bytes i = a.bytes i) (ho : o < a.size) (ha : 12 ≤ a.size) :
    a.get_rr_name off = .ok (o, owner) := get_rr_name_shift 0 h hb ho ha

theorem get_rr_extend (h : q.get_rr off = .ok (r, e))
    (hb : ∀ i, off ≤ i → i < e → q.bytes i = a.bytes i) (he : e ≤ a.size) (ha : 12 ≤ a.size) :
    a.get_rr off = .ok (r, e) := get_rr_shift 0 h hb he ha

theorem get_rr_question_extend (h : q.get_rr_question off = .ok (r, e))
    (hb : ∀ i, off ≤ i → i < e → q.bytes i = a.bytes i) (he : e ≤ a.size) (ha : 12 ≤ a.size) :
    a.get_rr_question off = .ok (r, e) := by
  rw [get_rr_question, Result.bind_eq_ok] at h
  obtain ⟨⟨o, owner⟩, hname, h⟩ := h
  obtain ⟨hlt, -⟩ := get_rr_name_bounds hname
  dsimp only at h
  split_ifs at h with h₁
  obtain ⟨hr, he'⟩ := Prod.mk.inj (Except.ok.inj h)
  have h₀ : be16 q.bytes o = be16 a.bytes o :=
    be16_congr (hb _ (by omega) (by omega)) (hb _ (by omega) (by omega))
  have h₂ : be16 q.bytes (o + 2) = be16 a.bytes (o + 2) :=
    be16_congr (hb _ (by omega) (by omega)) (hb _ (by omega) (by omega))
  have hname' := get_rr_name_extend hname (fun i hi₁ hi₂ => hb i hi₁ (by omega)) (by omega) ha
  rw [get_rr_question, hname', Result.ok_bind]
  dsimp only
  rw [if_neg (by omega), ← h₀, ← h₂, ← hr, ← he']

end Extend

/-- A walk over records moves on by at least 11 bytes for each of them. -/
theorem collect_bounds {q : Query} {n off e : ℕ} {rs : List rr}
    (h : collect q.get_rr n off = .ok (rs, e)) : off + 11 * n ≤ e ∧ (e ≤ q.size ∨ e = off) := by
  induction n generalizing off rs with
  | zero =>
      obtain ⟨-, rfl⟩ := Prod.mk.inj (Except.ok.inj h)
      exact ⟨by omega, Or.inr rfl⟩
  | succ n ih =>
      obtain ⟨r, off', rs', hr, hrs, -⟩ := collect_succ_eq_ok.mp h
      obtain ⟨h₁, h₂, h₃⟩ := get_rr_bounds hr
      obtain ⟨h₄, h₅⟩ := ih hrs
      omega

/-- A walk over the same bytes further on. -/
theorem collect_shift {q a : Query} {n off e : ℕ} {rs : List rr} (d : ℕ)
    (h : collect q.get_rr n off = .ok (rs, e))
    (hb : ∀ i, off ≤ i → i < e → q.bytes i = a.bytes (i + d)) (he : e + d ≤ a.size)
    (ha : 12 ≤ a.size) : collect a.get_rr n (off + d) = .ok (rs.map (rr.shift d), e + d) := by
  induction n generalizing off rs with
  | zero =>
      obtain ⟨rfl, rfl⟩ := Prod.mk.inj (Except.ok.inj h)
      rfl
  | succ n ih =>
      obtain ⟨r, off', rs', hr, hrs, rfl⟩ := collect_succ_eq_ok.mp h
      obtain ⟨h₁, h₂, -⟩ := get_rr_bounds hr
      have hle := (collect_bounds hrs).1
      have hr' := get_rr_shift d hr (fun i hi₁ hi₂ => hb i hi₁ (by omega)) (by omega) ha
      exact collect_succ_eq_ok.mpr ⟨r.shift d, off' + d, rs'.map (rr.shift d), hr',
        ih hrs fun i hi₁ hi₂ => hb i (by omega) hi₂, rfl⟩

/-- **A walk does not see what comes behind it.** -/
theorem collect_extend {q a : Query} {n off e : ℕ} {rs : List rr}
    (h : collect q.get_rr n off = .ok (rs, e)) (hb : ∀ i, off ≤ i → i < e → q.bytes i = a.bytes i)
    (he : e ≤ a.size) (ha : 12 ≤ a.size) : collect a.get_rr n off = .ok (rs, e) := by
  have hshift := collect_shift 0 h hb he ha
  have hid : rs.map (rr.shift 0) = rs := List.map_id rs
  rwa [hid] at hshift

/-- A walk in two parts. -/
theorem collect_add {get : ℕ → Result (rr × ℕ)} {m off e₁ : ℕ} {rs : List rr}
    (h : collect get m off = .ok (rs, e₁)) (n : ℕ) :
    (collect get (m + n) off).returns ↔ (collect get n e₁).returns := by
  induction m generalizing off rs with
  | zero =>
      obtain ⟨-, rfl⟩ := Prod.mk.inj (Except.ok.inj h)
      rw [Nat.zero_add]
  | succ m ih =>
      obtain ⟨r, off', rs', hr, hrs, -⟩ := collect_succ_eq_ok.mp h
      rw [← ih hrs, Nat.add_right_comm, collect, hr, Result.ok_bind]
      exact Result.returns_bind_iff fun p => Result.returns_ok _

theorem collect_append {get : ℕ → Result (rr × ℕ)} {m n off e₁ e₂ : ℕ} {rs₁ rs₂ : List rr}
    (h₁ : collect get m off = .ok (rs₁, e₁)) (h₂ : collect get n e₁ = .ok (rs₂, e₂)) :
    collect get (m + n) off = .ok (rs₁ ++ rs₂, e₂) := by
  induction m generalizing off rs₁ with
  | zero =>
      obtain ⟨rfl, rfl⟩ := Prod.mk.inj (Except.ok.inj h₁)
      rw [Nat.zero_add, h₂]
      rfl
  | succ m ih =>
      obtain ⟨r, off', rs', hr, hrs, rfl⟩ := collect_succ_eq_ok.mp h₁
      rw [Nat.add_right_comm]
      exact collect_succ_eq_ok.mpr ⟨r, off', rs' ++ rs₂, hr, ih hrs, rfl⟩

/-! ## An added answer -/

theorem set_header_header (q : Query) {h : message_header} (hv : h.Valid) :
    (q.set_header h).header = h := message_header.read_write q.bytes hv

/-- Behind the header nothing changes. -/
theorem set_header_agree (q : Query) (h : message_header) : Agree (q.set_header h) q 12 := by
  refine ⟨rfl, fun i hi _ => ?_⟩
  apply write_apply_outside
  right
  rw [message_header.wire_length]
  omega

/-- A message that is marked as a response with a code keeps the rest of its header. -/
theorem mark_header (q : Query) (c : pkt_rcode) :
    ((q.set_rcode c).flag_qr true).header = { q.header with rcode := c.code, qr := true } := by
  have hv := message_header.read_valid q.bytes
  have hlt : c.code < 16 := by
    cases c
    all_goals decide
  have hcode : ({ q.header with rcode := c.code } : message_header).Valid :=
    ⟨hv.id, hv.opcode, hlt, hv.z, hv.qdcount, hv.ancount, hv.nscount, hv.arcount⟩
  have hset : (q.set_rcode c).header = { q.header with rcode := c.code } :=
    set_header_header q hcode
  rw [flag_qr, hset, set_header_header]
  exact ⟨hv.id, hv.opcode, hlt, hv.z, hv.qdcount, hv.ancount, hv.nscount, hv.arcount⟩

/-- And everything behind it. -/
theorem mark_agree (q : Query) (c : pkt_rcode) : Agree ((q.set_rcode c).flag_qr true) q 12 := by
  have h₁ := set_header_agree q { q.header with rcode := c.code }
  have h₂ := set_header_agree (q.set_rcode c) { (q.set_rcode c).header with qr := true }
  exact ⟨h₂.1.trans h₁.1, fun i hi hlt => (h₂.2 i hi hlt).trans (h₁.2 i hi hlt)⟩

theorem collect_congr {get get' : ℕ → Result (rr × ℕ)} {off : ℕ}
    (hget : ∀ o, off ≤ o → get o = get' o) (hmono : ∀ o r o', get o = .ok (r, o') → o ≤ o') (n : ℕ) :
    collect get n off = collect get' n off := by
  induction n generalizing off with
  | zero => rfl
  | succ n ih =>
      rw [collect, collect, ← hget off (le_refl _)]
      cases hr : get off with
      | error e => rfl
      | ok p =>
          obtain ⟨r, off'⟩ := p
          have hle := hmono off r off' hr
          rw [Result.ok_bind, Result.ok_bind]
          dsimp only
          rw [ih fun o ho => hget o (by omega)]

theorem collect_agree {q a : Query} {off : ℕ} (h : Agree q a off) (n : ℕ) :
    collect q.get_rr n off = collect a.get_rr n off := by
  apply collect_congr
  · intro o ho
    exact get_rr_congr (h.mono ho)
  · intro o r o' hr
    have := get_rr_bounds hr
    omega

theorem collect_question_agree {q a : Query} {off : ℕ} (h : Agree q a off) (n : ℕ) :
    collect q.get_rr_question n off = collect a.get_rr_question n off := by
  apply collect_congr
  · intro o ho
    exact get_rr_question_congr (h.mono ho)
  · intro o r o' hr
    have := (get_rr_question_bounds hr).1
    omega

/-- A question takes five bytes at least. -/
theorem collect_question_bounds {q : Query} {n off e : ℕ} {rs : List rr}
    (h : collect q.get_rr_question n off = .ok (rs, e)) :
    off + 5 * n ≤ e ∧ (e ≤ q.size ∨ n = 0) := by
  induction n generalizing off rs with
  | zero =>
      obtain ⟨-, rfl⟩ := Prod.mk.inj (Except.ok.inj h)
      exact ⟨by omega, Or.inr rfl⟩
  | succ n ih =>
      obtain ⟨r, off', rs', hr, hrs, -⟩ := collect_succ_eq_ok.mp h
      have hb := get_rr_question_bounds hr
      obtain ⟨h₁, h₂⟩ := ih hrs
      refine ⟨by omega, Or.inl ?_⟩
      by_cases hn : n = 0
      · rw [hn] at hrs
        obtain ⟨-, rfl⟩ := Prod.mk.inj (Except.ok.inj hrs)
        exact hb.2
      · exact h₂.resolve_right hn

/-- Questions that parse are not more than there is room for. -/
theorem questions_count {q : Query} (h : q.questions.returns) :
    5 * q.header.qdcount ≤ q.size := by
  obtain ⟨⟨qs, off⟩, h⟩ := h
  obtain ⟨h₁, h₂⟩ := collect_question_bounds h
  rcases h₂ with h₂ | h₂
  · omega
  · omega

/-- One question: where the questions end. -/
theorem questions_bounds {q : Query} (hq : q.header.qdcount = 1) {qs : List rr} {off : ℕ}
    (h : q.questions = .ok (qs, off)) :
    12 < off ∧ off ≤ q.size ∧ ∃ r, qs = [r] ∧ q.get_rr_question 12 = .ok (r, off) := by
  rw [questions, hq] at h
  obtain ⟨r, off', rs', hr, hrs, rfl⟩ := collect_succ_eq_ok.mp h
  obtain ⟨rfl, rfl⟩ := Prod.mk.inj (Except.ok.inj hrs)
  have hb := get_rr_question_bounds hr
  have e₁ : message_header.wire_size = 12 := rfl
  exact ⟨by omega, hb.2, r, rfl, hr⟩

/-! ## The question -/

/-- The owner of a question that was returned is the name that was read. -/
theorem get_rr_name_of_get_question {q : Query} {owner : Str} {class_ type : ℕ}
    (h : q.get_question = .ok (owner, class_, type)) : ∃ o, q.get_rr_name 12 = .ok (o, owner) := by
  have e₁ : message_header.wire_size = 12 := rfl
  rw [get_question] at h
  split_ifs at h with hqd
  obtain ⟨⟨r, e⟩, hr, h⟩ := Result.bind_eq_ok.mp h
  obtain ⟨rfl, -⟩ := Prod.mk.inj (Except.ok.inj h)
  rw [get_rr_question, e₁] at hr
  obtain ⟨⟨o, owner⟩, hname, hr⟩ := Result.bind_eq_ok.mp hr
  dsimp only at hr
  split_ifs at hr with hin
  obtain ⟨rfl, -⟩ := Prod.mk.inj (Except.ok.inj hr)
  exact ⟨o, hname⟩

theorem get_question_of_rr_question {q : Query} {r : rr} {e : ℕ} (hqd : q.header.qdcount = 1)
    (h : q.get_rr_question 12 = .ok (r, e)) :
    q.get_question = .ok (r.owner, r.class_, r.type) := by
  have e₁ : message_header.wire_size = 12 := rfl
  rw [get_question, if_neg (not_not_intro hqd), e₁, h]
  rfl

theorem questions_of_rr_question {q : Query} {r : rr} {off : ℕ} (hqd : q.header.qdcount = 1)
    (h : q.get_rr_question 12 = .ok (r, off)) : q.questions = .ok ([r], off) := by
  rw [questions, hqd]
  exact collect_succ_eq_ok.mpr ⟨r, off, [], h, rfl, rfl⟩

/-- A name that was read is what it was before, or at least one letter and a dot
longer, and never longer than the limit. -/
theorem Named.length {pkt : Buffer} {pktlen off o : ℕ} {owner owner' : Str}
    (h : Named pkt pktlen off owner o owner') (hlen : owner.length ≤ max_host_name_length) :
    owner'.length ≤ max_host_name_length ∧ (owner' = owner ∨ owner.length + 2 ≤ owner'.length) := by
  induction h with
  | pointer _ _ => exact ⟨hlen, Or.inl rfl⟩
  | root _ _ => exact ⟨hlen, Or.inl rfl⟩
  | label hlabel _ _ hshort _ ih =>
      -- a label of at least one letter, and its dot
      obtain ⟨hle, hor⟩ := ih hshort
      simp only [List.length_append, List.length_map, slice_length, List.length_singleton] at hor
      refine ⟨hle, Or.inr ?_⟩
      rcases hor with rfl | hor
      · simp only [List.length_append, List.length_map, slice_length, List.length_singleton]
        omega
      · omega

theorem Named.chars {pkt : Buffer} {pktlen off o : ℕ} {owner owner' : Str}
    (h : Named pkt pktlen off owner o owner')
    (howner : ∀ ch ∈ owner, ch = '.' ∨ ∃ b, is_dns_char b = true ∧ ch = char_of b) :
    ∀ ch ∈ owner', ch = '.' ∨ ∃ b, is_dns_char b = true ∧ ch = char_of b := by
  induction h with
  | pointer _ _ => exact howner
  | root _ _ => exact howner
  | label _ _ hchars _ _ ih =>
      -- the characters of the label were tested
      apply ih
      intro ch hch
      rcases List.mem_append.mp hch with hch | hch
      · rcases List.mem_append.mp hch with hch | hch
        · exact howner ch hch
        · obtain ⟨b, hb, rfl⟩ := List.mem_map.mp hch
          exact Or.inr ⟨b, List.all_eq_true.mp hchars b hb, rfl⟩
      · exact Or.inl (List.mem_singleton.mp hch)

/-- The name of a question. -/
theorem get_question_name {q : Query} {owner : Str} {class_ type : ℕ}
    (h : q.get_question = .ok (owner, class_, type)) :
    owner.length ≤ max_host_name_length ∧ (owner = [] ∨ 2 ≤ owner.length) := by
  obtain ⟨o, hname⟩ := get_rr_name_of_get_question h
  obtain ⟨h₃, h₄⟩ := (get_rr_name_eq_ok.mp hname).2.2.length (Nat.zero_le _)
  exact ⟨h₃, h₄.imp id (by simp)⟩

/-- Its characters are dots, or belong into a label. -/
theorem get_question_chars {q : Query} {owner : Str} {class_ type : ℕ}
    (h : q.get_question = .ok (owner, class_, type)) :
    ∀ ch ∈ owner, ch = '.' ∨ ∃ b, is_dns_char b = true ∧ ch = char_of b := by
  obtain ⟨o, hname⟩ := get_rr_name_of_get_question h
  exact (get_rr_name_eq_ok.mp hname).2.2.chars (by simp)

theorem get_question_type_lt {q : Query} {owner : Str} {class_ type : ℕ}
    (h : q.get_question = .ok (owner, class_, type)) : type < 65536 := by
  rw [get_question] at h
  split_ifs at h with hqd
  obtain ⟨⟨r, e⟩, hr, h⟩ := Result.bind_eq_ok.mp h
  obtain ⟨-, hrest⟩ := Prod.mk.inj (Except.ok.inj h)
  obtain ⟨-, rfl⟩ := Prod.mk.inj hrest
  rw [get_rr_question] at hr
  obtain ⟨⟨o, name⟩, -, hr⟩ := Result.bind_eq_ok.mp hr
  dsimp only at hr
  split_ifs at hr with hin
  obtain ⟨rfl, -⟩ := Prod.mk.inj (Except.ok.inj hr)
  exact be16_lt _ _

/-- There is one answer to what the question is. -/
theorem get_question_unique {q : Query} {o o' : Str} {c c' t t' : ℕ}
    (h : q.get_question = .ok (o, c, t)) (h' : q.get_question = .ok (o', c', t')) :
    o = o' ∧ c = c' ∧ t = t' := by
  rw [h] at h'
  obtain ⟨h₁, h₂⟩ := Prod.mk.inj (Except.ok.inj h')
  exact ⟨h₁, Prod.mk.inj h₂⟩

/-- The question that `get_question` reads is the one the other walks start with. -/
theorem get_question_walk {q : Query} {owner : Str} {class_ type : ℕ}
    (h : q.get_question = .ok (owner, class_, type)) :
    q.header.qdcount = 1 ∧ ∃ r off, q.get_rr_question 12 = .ok (r, off) ∧ r.owner = owner ∧
      r.class_ = class_ ∧ r.type = type ∧ q.questions = .ok ([r], off) ∧
      q.skip_questions q.header.qdcount = .ok (off, some r) := by
  rw [get_question] at h
  split_ifs at h with hq
  have hq₁ : q.header.qdcount = 1 := not_not.mp hq
  obtain ⟨⟨r, off⟩, hr, h⟩ := Result.bind_eq_ok.mp h
  have h₁ := Prod.mk.inj (Except.ok.inj h)
  have h₂ := Prod.mk.inj h₁.2
  refine ⟨hq₁, r, off, hr, h₁.1, h₂.1, h₂.2, ?_, ?_⟩
  · rw [questions, hq₁]
    exact collect_succ_eq_ok.mpr ⟨r, off, [], hr, rfl, rfl⟩
  · rw [skip_questions, hq₁, for_each, hr]
    rfl

/-! ## Answers behind the question -/

theorem answered_header_valid (q : Query) : q.answered_header.Valid := by
  have hv := message_header.read_valid q.bytes
  exact ⟨hv.id, hv.opcode, hv.rcode, hv.z, hv.qdcount, Nat.mod_lt _ (by decide), hv.nscount,
    hv.arcount⟩

section AddAnswer

variable {q q' : Query} {data : List UInt8} {typ : ℕ} {ttl : ℤ}

theorem answer_wire_length (data : List UInt8) (typ : ℕ) (ttl : ℤ) :
    (answer_wire data typ ttl).length = 12 + data.length := by
  simp only [answer_wire, List.length_append, List.length_cons, List.length_nil, bytes16_length,
    bytes32_length]

/-- What `add_answer` makes of a message. -/
theorem add_answer_spec (h : q.add_answer data typ ttl = .ok q') :
    q.size + (12 + data.length) ≤ max_size ∧ q.header.qdcount = 1 ∧
      ∃ qs off rs e, q.questions = .ok (qs, off) ∧
        collect q.get_rr q.header.ancount off = .ok (rs, e) ∧ q'.size = e + 12 + data.length ∧
        q'.bytes = write (q.set_header q.answered_header).bytes e (answer_wire data typ ttl) := by
  have hagree := set_header_agree q q.answered_header
  rw [add_answer] at h
  dsimp only at h
  by_cases hfit : q.size + (12 + data.length) > max_size
  · rw [if_pos hfit] at h
    exact absurd h (by simp)
  rw [if_neg hfit] at h
  -- the walks run in the message with the new header
  obtain ⟨⟨off, x⟩, hskip, h⟩ := Result.bind_eq_ok.mp h
  obtain ⟨⟨e, y⟩, hans, h⟩ := Result.bind_eq_ok.mp h
  dsimp only at hans h
  split_ifs at h with hq
  obtain ⟨b, hput, h⟩ := Result.bind_eq_ok.mp h
  obtain ⟨hbytes, hsize⟩ := eq_of_set_size h
  obtain ⟨qs, hqs⟩ := (for_each_returns_pure _ (fun s r => Result.returns_ok _) _ _ _ _).mp
    ⟨x, hskip⟩
  obtain ⟨rs, hrs⟩ := (for_each_returns_pure _ (fun s r => Result.returns_ok _) _ _ _ _).mp
    ⟨y, hans⟩
  -- behind the header that message is the old one
  have hqs' : q.questions = .ok (qs, off) := by
    rw [questions, ← hqs]
    exact (collect_question_agree hagree _).symm
  have hoff := (questions_bounds hq hqs').1
  rw [collect_agree (hagree.mono (by omega))] at hrs
  exact ⟨by omega, hq, qs, off, rs, e, hqs', hrs, hsize, by rw [hbytes, eq_write_of_put hput]⟩

/-- **When an answer can be added**: there is room, there is one question, and the
answers that are there parse. -/
theorem add_answer_returns : (q.add_answer data typ ttl).returns ↔
    q.size + (12 + data.length) ≤ max_size ∧ q.header.qdcount = 1 ∧ q.answers.returns := by
  constructor
  · rintro ⟨q', h⟩
    obtain ⟨hfit, hq, qs, off, rs, e, hqs, hrs, -, -⟩ := add_answer_spec h
    refine ⟨hfit, hq, (rs, e), ?_⟩
    rw [answers, hqs]
    exact hrs
  · rintro ⟨hfit, hq, ⟨rs, e⟩, hans⟩
    obtain ⟨⟨qs, off⟩, hqs, hrs⟩ := Result.bind_eq_ok.mp hans
    have hagree := set_header_agree q q.answered_header
    obtain ⟨hoff, hoff', -⟩ := questions_bounds hq hqs
    have he : e ≤ q.size := by
      have := (collect_bounds hrs).2
      omega
    -- the same walks, in the message with the new header
    have hqs' := (collect_question_agree hagree _).trans hqs
    have hrs' := (collect_agree (hagree.mono (by omega : 12 ≤ off)) _).trans hrs
    obtain ⟨x, hskip⟩ := (for_each_returns_pure _ (fun (s : Option rr) r => Result.returns_ok (some r))
      _ _ none _).mpr ⟨qs, hqs'⟩
    obtain ⟨y, hwalk⟩ := (for_each_returns_pure _ (fun (s : Unit) r => Result.returns_ok ())
      _ _ () _).mpr ⟨rs, hrs'⟩
    rw [add_answer]
    dsimp only
    rw [if_neg (by omega)]
    refine Result.returns_bind.mpr ⟨(off, x), hskip, ?_⟩
    refine Result.returns_bind.mpr ⟨(e, y), hwalk, ?_⟩
    dsimp only
    rw [if_pos hq, put_eq_ok _ (by rw [answer_wire_length]; omega), Result.ok_bind,
      set_size_eq_ok _ (by omega)]
    exact Result.returns_ok _

/-- The header of the result. -/
theorem add_answer_header (h : q.add_answer data typ ttl = .ok q') :
    q'.header = q.answered_header := by
  obtain ⟨-, hq, qs, off, rs, e, hqs, hrs, -, hbytes⟩ := add_answer_spec h
  have hoff := (questions_bounds hq hqs).1
  have hle := (collect_bounds hrs).1
  rw [← set_header_header q q.answered_header_valid]
  apply message_header.read_congr
  intro i hi
  rw [hbytes]
  exact write_apply_outside _ (Or.inl (by omega))

/-- The bytes between the header and the new answer are those of the question and
of the answers that were there. -/
theorem add_answer_bytes {e : ℕ}
    (hbytes : q'.bytes = write (q.set_header q.answered_header).bytes e (answer_wire data typ ttl)) :
    ∀ i, 12 ≤ i → i < e → q.bytes i = q'.bytes i := by
  intro i h₁ h₂
  rw [hbytes, write_apply_outside _ (Or.inl h₂)]
  exact (write_apply_outside q.bytes (Or.inr (by rw [message_header.wire_length]; omega))).symm

/-- The question stays. -/
theorem add_answer_question (h : q.add_answer data typ ttl = .ok q') :
    ∃ qs off, q.questions = .ok (qs, off) ∧ q'.questions = .ok (qs, off) := by
  obtain ⟨-, hq, qs, off, rs, e, hqs, hrs, hsize, hbytes⟩ := add_answer_spec h
  obtain ⟨hoff, -, r, rfl, hr⟩ := questions_bounds hq hqs
  have hle := (collect_bounds hrs).1
  have hq' : q'.header.qdcount = 1 := by
    rw [add_answer_header h]
    exact hq
  have hr' := get_rr_question_extend hr
    (fun i h₁ h₂ => add_answer_bytes hbytes i h₁ (by omega)) (by omega) (by omega)
  refine ⟨[r], off, hqs, ?_⟩
  rw [questions, hq']
  exact collect_succ_eq_ok.mpr ⟨r, off, [], hr', rfl, rfl⟩

theorem get_question_add_answer (h : q.add_answer data typ ttl = .ok q') {p : Str × ℕ × ℕ}
    (hp : q.get_question = .ok p) : q'.get_question = .ok p := by
  obtain ⟨qs, off, hqs, hqs'⟩ := add_answer_question h
  obtain ⟨-, hq, -⟩ := add_answer_spec h
  have hq' : q'.header.qdcount = 1 := by
    rw [add_answer_header h]
    exact hq
  obtain ⟨-, -, r, hr₁, hr⟩ := questions_bounds hq hqs
  obtain ⟨-, -, r', hr₂, hr'⟩ := questions_bounds hq' hqs'
  obtain rfl : r = r' := by
    rw [hr₁] at hr₂
    exact (List.cons.inj hr₂).1
  have e₁ : message_header.wire_size = 12 := rfl
  rw [get_question, if_neg (not_not_intro hq), e₁, hr, Result.ok_bind] at hp
  rw [get_question, if_neg (not_not_intro hq'), e₁, hr', Result.ok_bind]
  exact hp

/-- The record that `add_answer` writes at `e`, as the parser shows it. Its name is the
pointer, which the parser shows as the empty name. -/
def answer_rr (data : List UInt8) (typ : ℕ) (ttl : ℤ) (e : ℕ) : rr :=
  { owner := [], type := typ % 65536, class_ := rr_class.internet.code, ttl := int32 (uint32 ttl)
    rdlength := data.length, data, rr_off := e + 2 }

/-- The new answer is the last thing in the message. -/
theorem get_rr_add_answer {b : Buffer} {e : ℕ} (hdata : data.length < 65536)
    (hbytes : q'.bytes = write b e (answer_wire data typ ttl))
    (hsize : q'.size = e + 12 + data.length) :
    q'.get_rr e = .ok (answer_rr data typ ttl e, q'.size) := by
  -- the fields of the record, one behind the other
  have hslice := slice_write_same b e (answer_wire data typ ttl)
  rw [← hbytes, answer_wire] at hslice
  obtain ⟨hslice, hd⟩ := slice_eq_append hslice
  obtain ⟨hslice, hlen⟩ := slice_eq_append hslice
  obtain ⟨hslice, httl⟩ := slice_eq_append hslice
  obtain ⟨hslice, hclass⟩ := slice_eq_append hslice
  obtain ⟨hslice, htype⟩ := slice_eq_append hslice
  have hbyte : q'.bytes e = 0xc0 := (List.cons.inj hslice).1
  -- its name is a pointer, which ends the name at once
  have hname : q'.get_rr_name e = .ok (e + 2, []) := by
    have e₁ : message_header.wire_size = 12 := rfl
    refine get_rr_name_eq_ok.mpr ⟨by omega, by omega, .pointer ?_ (by omega)⟩
    rw [hbyte]
    decide
  have htype' : be16 q'.bytes (e + 2) = typ % 65536 := be16_of_slice htype
  have hclass' : be16 q'.bytes (e + 2 + 2) = rr_class.internet.code := be16_of_slice hclass
  have httl' : be32 q'.bytes (e + 2 + 4) = uint32 ttl := by
    refine (be32_of_slice httl).trans (Nat.mod_eq_of_lt ?_)
    unfold uint32
    omega
  have hlen' : be16 q'.bytes (e + 2 + 8) = data.length :=
    (be16_of_slice hlen).trans (Nat.mod_eq_of_lt hdata)
  have hdata' : slice q'.bytes (e + 2 + 10) data.length = data := hd
  rw [get_rr, hname, Result.ok_bind]
  dsimp only
  rw [hlen', if_neg (by omega), if_neg (by omega), hsize, htype', hclass', httl', hdata']
  rfl

/-- **A message with an added answer** can be walked over exactly when nothing
followed its answers. -/
theorem records_add_answer_iff (hdata : data.length < 65536)
    (h : q.add_answer data typ ttl = .ok q') :
    q'.records.returns ↔ q.header.nscount + q.header.arcount = 0 := by
  obtain ⟨-, hq, qs, off, rs, e, hqs, hrs, hsize, hbytes⟩ := add_answer_spec h
  obtain ⟨hoff, hoff', -⟩ := questions_bounds hq hqs
  have hle := collect_bounds hrs
  have hqsize := q.size_le
  have e₁ : max_size = 55535 := rfl
  obtain ⟨qs', off', hqs₁, hqs₂⟩ := add_answer_question h
  obtain ⟨rfl, rfl⟩ : qs = qs' ∧ off = off' := by
    rw [hqs] at hqs₁
    exact Prod.mk.inj (Except.ok.inj hqs₁)
  -- the answers that were there, and the new one
  have hrs' := collect_extend hrs
    (fun i h₁ h₂ => add_answer_bytes hbytes i (by omega) h₂) (by omega : e ≤ q'.size) (by omega)
  have hr := get_rr_add_answer hdata hbytes hsize
  have hcount : rr_count q'.header =
      q.header.ancount + (1 + (q.header.nscount + q.header.arcount)) := by
    rw [add_answer_header h, rr_count, answered_header]
    dsimp only
    rw [Nat.mod_eq_of_lt (by omega)]
    omega
  have hrecords : q'.records.returns ↔ (collect q'.get_rr (rr_count q'.header) off).returns := by
    obtain ⟨x, hskip⟩ := (skip_questions_returns q' off).mpr ⟨qs, hqs₂⟩
    rw [records, hskip, Result.ok_bind]
    dsimp only
    constructor
    · rintro ⟨rs, h⟩
      obtain ⟨e, he⟩ := get_rrs_eq_ok.mp h
      exact ⟨(rs, e), he⟩
    · rintro ⟨⟨rs, e⟩, he⟩
      exact ⟨rs, get_rrs_eq_ok.mpr ⟨e, he⟩⟩
  have hlast : collect q'.get_rr 1 e = .ok ([answer_rr data typ ttl e], q'.size) :=
    collect_succ_eq_ok.mpr ⟨_, q'.size, [], hr, rfl, rfl⟩
  rw [hrecords, hcount, collect_add hrs', collect_add hlast]
  -- nothing can be read at the end of the message
  by_cases hzero : q.header.nscount + q.header.arcount = 0
  · rw [hzero]
    exact iff_of_true (Result.returns_ok _) rfl
  · refine iff_of_false ?_ hzero
    obtain ⟨m, hm⟩ : ∃ m, q.header.nscount + q.header.arcount = m + 1 :=
      ⟨q.header.nscount + q.header.arcount - 1, by omega⟩
    rw [hm]
    rintro ⟨⟨rs, e⟩, hc⟩
    obtain ⟨r, off', rs', hr, -⟩ := collect_succ_eq_ok.mp hc
    have := get_rr_bounds hr
    omega

end AddAnswer

end Query

end Cdns
