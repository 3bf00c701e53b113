/-
The file of the cache (`cache::save_as` and `cache::load` in `dns/srcz/cache.cpp`).

Numbers are written as they are in memory, those of a little-endian machine with
64-bit `std::size_t` and `std::time_t`. `save_as` goes over a hash set, so it is given
the entries in the order the set has them in. A stream is the bytes that are left of
the file, or nothing after a read that ran into its end; the keys of the format are
read into arrays that are not cleared, so `stack` is what those hold.

`load` has limits of its own on the length of a name and of a message. Within them what
was saved is loaded (`load_save`), and an entry outside of them makes the file
unreadable. The entries of a reachable cache are within the limits but for one thing: a
name may be empty. `load_save_iff` says for which histories the file can be read.
-/
import Cdns.CacheSpec
import Cdns.Hostname
import Cdns.Lib.Endian

set_option autoImplicit false

namespace Cdns.Cache

open Lib.Storage Lib.Keyed Lib.Endian

/-! ## Writing -/

/-- The bytes of a text. -/
def ascii (s : String) : List UInt8 := s.toList.map Query.byte_of

/-- The magic number of the format. -/
def magick : ℕ := 1023456789

/-- One turn of the loop of `save_as`. -/
def entry_bytes (ent : cache_entry) : List UInt8 :=
  ascii "entr" ++ (bytes 8 ent.first.length ++ (ent.first.map Query.byte_of ++
    (bytes 2 ent.second ++ (bytes 8 (unsigned64 ent.deadline) ++ (ascii "dns:" ++
      (bytes 8 ent.response.length ++ ent.response))))))

/-- What `save_as` writes. -/
def file_bytes (cache_entries_ : List cache_entry) : List UInt8 :=
  ascii "mgck" ++ (bytes 4 magick ++ (ascii "size" ++ (bytes 8 cache_entries_.length ++
    cache_entries_.flatMap entry_bytes)))

/-- `cache::save_as`: the contents of the file, which could be `written` or not. -/
def save_as (filename : String) (written : Bool) (cache_entries_ : List cache_entry) :
    Result (List UInt8) :=
  if written then .ok (file_bytes cache_entries_)
  else .error (.runtime_error ("Failed to save DNS cache into: " ++ filename))

/-! ## Reading -/

/-- `crd <T>` and `crd (ifile, d, n)`: `n` bytes. -/
def crd (n : ℕ) : Option (List UInt8) → Result (List UInt8 × Option (List UInt8))
  | none => .error (.runtime_error "wrong file")
  | some rest =>
      if rest.length < n then .error (.runtime_error "wrong file")
      else .ok (rest.take n, some (rest.drop n))

/-- `crd <4>`: the end of the file is no failure. -/
def crd4 (stack : List UInt8) : Option (List UInt8) → List UInt8 × Option (List UInt8)
  | none => (stack, none)
  | some rest =>
      if rest.length < 4 then (rest ++ stack.drop rest.length, none)
      else (rest.take 4, some (rest.drop 4))

/-- The message of an entry, behind its key. -/
def read_response (filename : String) (ifile : Option (List UInt8)) :
    Result (List UInt8 × Option (List UInt8)) := do
  let (l, ifile) ← crd 8 ifile
  if 12 > value l ∨ max_size < value l then
    .error (.runtime_error ("invalid DNS message in: " ++ filename))
  else crd (value l) ifile

/-- An entry, behind its key and the length `l` of its name. -/
def read_entry_tail (filename : String) (stack : List UInt8) (l : ℕ) (ifile : Option (List UInt8)) :
    Result (cache_entry × Option (List UInt8)) := do
  let (name, ifile) ← crd l ifile
  let (qtype, ifile) ← crd 2 ifile
  let (deadline, ifile) ← crd 8 ifile
  let (key, ifile) := crd4 stack ifile
  if key ≠ ascii "dns:" then .error (.runtime_error ("corrupt DNS entry in: " ++ filename))
  else do
    let (response, ifile) ← read_response filename ifile
    .ok (⟨name.map Query.char_of, value qtype, signed64 (value deadline), response⟩, ifile)

/-- The part of a turn of the loop of `load` that reads: an entry, or nothing at the end
of the file. -/
def read_entry (filename : String) (stack : List UInt8) (ifile : Option (List UInt8)) :
    Result (Option (cache_entry × Option (List UInt8))) :=
  let (key, ifile) := crd4 stack ifile
  if ifile = none then .ok none
  else if key ≠ ascii "entr" then
    .error (.runtime_error ("corrupt DNS cache file: " ++ filename))
  else do
    let (l, ifile) ← crd 8 ifile
    if 1 > value l ∨ 300 < value l then
      .error (.runtime_error ("corrupt DNS name in: " ++ filename))
    else do
      let p ← read_entry_tail filename stack (value l) ifile
      .ok (some p)

/-- The loop of `load`; `n` is the number of entries so far. A turn takes bytes off the
file, so one turn more than it has bytes is enough (`load_loop_fuel`). -/
def load_loop (filename : String) (stack : List UInt8) (nq : ℕ) :
    ℕ → ℕ → Cache → Option (List UInt8) → Result Cache
  | 0, _, _, _ => .error .overrun
  | fuel + 1, n, result, ifile => do
      let p ← read_entry filename stack ifile
      match p with
      | none => .ok result
      | some (entry, ifile) =>
          if n + 1 > nq then
            .error (.runtime_error ("Too many entries in DNS cache: " ++ filename))
          else
            load_loop filename stack nq fuel (n + 1)
              { result with entries := result.entries.insert entry } ifile

/-- What `load` does behind the header of the file. -/
def load_entries (filename : String) (stack : List UInt8) (fuel minttl : ℕ)
    (ifile : Option (List UInt8)) : Result Cache := do
  let (nq, ifile) ← crd 8 ifile
  let result ← load_loop filename stack (value nq) fuel 0 (empty minttl) ifile
  if result.entries.elems.length < value nq then .error (.runtime_error "too few entries")
  else .ok result

/-- `cache::load`; `file` is `none` when it cannot be opened. -/
def load (filename : String) (stack : List UInt8) (file : Option (List UInt8)) (minttl : ℕ) :
    Result Cache :=
  match file with
  | none => .error (.runtime_error "Can't read file")
  | some contents => do
      let (key, ifile) := crd4 stack (some contents)
      if key ≠ ascii "mgck" then
        .error (.runtime_error ("Not a DNS cache (wrong magick): " ++ filename))
      else do
        let (m, ifile) ← crd 4 ifile
        if value m ≠ magick then
          .error (.runtime_error ("Not a DNS cache (wrong byte order): " ++ filename))
        else
          let (key, ifile) := crd4 stack ifile
          if key ≠ ascii "size" then
            .error (.runtime_error ("Not a DNS cache (no size): " ++ filename))
          else load_entries filename stack (contents.length + 1) minttl ifile

/-! ## The end of the file -/

/-- The number of bytes that are left. -/
def left : Option (List UInt8) → ℕ
  | none => 0
  | some rest => rest.length

theorem crd_left {n : ℕ} {ifile ifile' : Option (List UInt8)} {l : List UInt8}
    (h : crd n ifile = .ok (l, ifile')) : left ifile' ≤ left ifile := by
  unfold crd at h
  split at h
  · exact absurd h (by simp)
  · split_ifs at h
    obtain ⟨-, rfl⟩ := Prod.mk.inj (Except.ok.inj h)
    simp [left]

theorem crd4_left (stack : List UInt8) (ifile : Option (List UInt8)) :
    left (crd4 stack ifile).2 ≤ left ifile ∧
      ((crd4 stack ifile).2 ≠ none → left (crd4 stack ifile).2 < left ifile) := by
  unfold crd4
  split
  · simp [left]
  · split_ifs
    · simp [left]
    · simp only [left, List.length_drop]
      omega

/-- An entry takes bytes off the file. -/
theorem read_entry_left {filename : String} {stack : List UInt8} {ifile ifile' : Option (List UInt8)}
    {e : cache_entry} (h : read_entry filename stack ifile = .ok (some (e, ifile'))) :
    left ifile' < left ifile := by
  unfold read_entry at h
  dsimp only at h
  split_ifs at h with hend hkey
  · exact absurd (Except.ok.inj h) (by simp)
  obtain ⟨⟨l, s₁⟩, h₁, h⟩ := Result.bind_eq_ok.mp h
  dsimp only at h
  split_ifs at h with hlen
  obtain ⟨p, htail, h⟩ := Result.bind_eq_ok.mp h
  obtain rfl : p = (e, ifile') := Option.some.inj (Except.ok.inj h)
  rw [read_entry_tail] at htail
  obtain ⟨⟨name, s₂⟩, h₂, htail⟩ := Result.bind_eq_ok.mp htail
  obtain ⟨⟨qtype, s₃⟩, h₃, htail⟩ := Result.bind_eq_ok.mp htail
  obtain ⟨⟨deadline, s₄⟩, h₄, htail⟩ := Result.bind_eq_ok.mp htail
  dsimp only at h₂ h₃ h₄ htail
  split_ifs at htail with hdns
  obtain ⟨⟨response, s₅⟩, hresp, htail⟩ := Result.bind_eq_ok.mp htail
  obtain ⟨-, rfl⟩ := Prod.mk.inj (Except.ok.inj htail)
  rw [read_response] at hresp
  obtain ⟨⟨l', s₆⟩, h₆, hresp⟩ := Result.bind_eq_ok.mp hresp
  dsimp only at hresp
  split_ifs at hresp with hsize
  -- the key takes four bytes, and no read gives any back
  have hkey₁ := (crd4_left stack ifile).2 hend
  have hkey₂ := (crd4_left stack s₄).1
  have := crd_left h₁
  have := crd_left h₂
  have := crd_left h₃
  have := crd_left h₄
  have := crd_left h₆
  have := crd_left hresp
  show left s₅ < left ifile
  omega

/-- More turns than bytes left do not change the result of the loop. -/
theorem load_loop_fuel {filename : String} {stack : List UInt8} {nq fuel : ℕ} (n : ℕ)
    (result : Cache) {ifile : Option (List UInt8)} (h : left ifile < fuel) (m : ℕ) :
    load_loop filename stack nq (fuel + m) n result ifile
      = load_loop filename stack nq fuel n result ifile := by
  induction fuel generalizing n result ifile with
  | zero => omega
  | succ fuel ih =>
      rw [Nat.add_right_comm, load_loop, load_loop]
      cases hread : read_entry filename stack ifile with
      | error x => rfl
      | ok p =>
          rw [Result.ok_bind, Result.ok_bind]
          cases p with
          | none => rfl
          | some p =>
              obtain ⟨e, ifile'⟩ := p
              have hlt := read_entry_left hread
              dsimp only
              rw [ih (n + 1) { result with entries := result.entries.insert e } (by omega)]

/-! ## Reading what was written -/

theorem crd_append {l rest : List UInt8} {n : ℕ} (h : l.length = n) :
    crd n (some (l ++ rest)) = .ok (l, some rest) := by
  obtain ⟨h₁, h₂⟩ := @split_field l rest n h
  rw [crd, if_neg (by rw [List.length_append]; omega), h₁, h₂]

theorem crd4_append (stack : List UInt8) {l rest : List UInt8} (h : l.length = 4) :
    crd4 stack (some (l ++ rest)) = (l, some rest) := by
  obtain ⟨h₁, h₂⟩ := @split_field l rest 4 h
  rw [crd4, if_neg (by rw [List.length_append]; omega), h₁, h₂]

/-- An entry whose fields have the sizes that the format has room for, and that `load`
takes. The name may be empty. -/
structure Fits (e : cache_entry) : Prop where
  name_le : e.first.length ≤ 300
  name_byte : ∀ ch ∈ e.first, ch.toNat < 256
  type_lt : e.second < 65536
  deadline_ge : -2 ^ 63 ≤ e.deadline
  deadline_lt : e.deadline < 2 ^ 63
  response_ge : 12 ≤ e.response.length
  response_le : e.response.length ≤ max_size

section ReadEntry

variable {filename : String} {stack rest : List UInt8} {e : cache_entry}

/-- The message is read as it was written. -/
theorem read_response_bytes (he : Fits e) :
    read_response filename (some (bytes 8 e.response.length ++ (e.response ++ rest)))
      = .ok (e.response, some rest) := by
  have e₁ : max_size = 55535 := rfl
  have hlo := he.response_ge
  have hhi := he.response_le
  have hlen : value (bytes 8 e.response.length) = e.response.length :=
    value_bytes_of_lt (by omega)
  rw [read_response, crd_append (bytes_length _ _), Result.ok_bind]
  dsimp only
  rw [hlen, if_neg (by omega), crd_append rfl]

/-- **An entry is read as it was written**, unless its name is empty. -/
theorem read_entry_bytes (he : Fits e) (hne : e.first ≠ []) :
    read_entry filename stack (some (entry_bytes e ++ rest)) = .ok (some (e, some rest)) := by
  have hpos : 0 < e.first.length := List.length_pos_iff.mpr hne
  have hle := he.name_le
  have hname : value (bytes 8 e.first.length) = e.first.length := value_bytes_of_lt (by omega)
  have htype : value (bytes 2 e.second) = e.second := value_bytes_of_lt he.type_lt
  have hdead : signed64 (value (bytes 8 (unsigned64 e.deadline))) = e.deadline := by
    rw [value_bytes_of_lt (unsigned64_lt _), signed64_unsigned64 he.deadline_ge he.deadline_lt]
  have htext : (e.first.map Query.byte_of).map Query.char_of = e.first := by
    rw [List.map_map]
    refine (List.map_congr_left fun ch hch => ?_).trans (List.map_id _)
    exact Query.char_of_byte_of_lt (he.name_byte ch hch)
  have hlen : (e.first.map Query.byte_of).length = e.first.length := List.length_map _
  rw [entry_bytes]
  simp only [List.append_assoc]
  rw [read_entry, crd4_append _ (by decide)]
  dsimp only
  rw [if_neg (by simp), if_neg (by simp), crd_append (bytes_length _ _), Result.ok_bind]
  dsimp only
  rw [hname, if_neg (by omega), read_entry_tail, crd_append hlen, Result.ok_bind]
  dsimp only
  rw [crd_append (bytes_length _ _), Result.ok_bind]
  dsimp only
  rw [crd_append (bytes_length _ _), Result.ok_bind]
  dsimp only
  rw [crd4_append _ (by decide)]
  dsimp only
  rw [if_neg (by simp), read_response_bytes he, Result.ok_bind, Result.ok_bind, htext, htype, hdead]

/-- An entry without a name is not read. -/
theorem read_entry_nameless (hnil : e.first = []) :
    read_entry filename stack (some (entry_bytes e ++ rest))
      = .error (.runtime_error ("corrupt DNS name in: " ++ filename)) := by
  have hname : value (bytes 8 e.first.length) = 0 := by
    rw [hnil]
    rfl
  rw [entry_bytes]
  simp only [List.append_assoc]
  rw [read_entry, crd4_append _ (by decide)]
  dsimp only
  rw [if_neg (by simp), if_neg (by simp), crd_append (bytes_length _ _), Result.ok_bind]
  dsimp only
  rw [hname, if_pos (by omega)]

theorem read_entry_end : read_entry filename stack (some []) = .ok none := rfl

end ReadEntry

section LoadLoop

variable {filename : String} {stack : List UInt8} {nq : ℕ}

/-- The loop takes all the entries, in their order. -/
theorem load_loop_entries {ents : List cache_entry} {fuel n : ℕ} {result : Cache}
    (hfits : ∀ e ∈ ents, Fits e) (hne : ∀ e ∈ ents, e.first ≠ []) (hn : n + ents.length ≤ nq)
    (hfuel : ents.length < fuel)
    (hnodup : ((result.entries.elems ++ ents).map cache_entry.key).Nodup) :
    ∃ c, load_loop filename stack nq fuel n result (some (ents.flatMap entry_bytes)) = .ok c ∧
      c.entries.elems = result.entries.elems ++ ents := by
  -- along the entries; each is new, since no two have the same key
  induction ents generalizing fuel n result with
  | nil =>
      obtain ⟨fuel, rfl⟩ : ∃ f, fuel = f + 1 := ⟨fuel - 1, by omega⟩
      refine ⟨result, ?_, by rw [List.append_nil]⟩
      rw [load_loop, List.flatMap_nil, read_entry_end]
      rfl
  | cons e ents ih =>
      obtain ⟨hfit, hfits⟩ := List.forall_mem_cons.mp hfits
      obtain ⟨hname, hne⟩ := List.forall_mem_cons.mp hne
      rw [List.length_cons] at hn hfuel
      obtain ⟨fuel, rfl⟩ : ∃ f, fuel = f + 1 := ⟨fuel - 1, by omega⟩
      have hinsert : (result.entries.insert e).elems = result.entries.elems ++ [e] := by
        apply KeyedSet.insert_elems
        intro e' he' heq
        rw [List.map_append, List.nodup_append] at hnodup
        exact hnodup.2.2 _ (List.mem_map_of_mem he') _
          (List.mem_map_of_mem (List.mem_cons_self)) heq
      have hnodup' : (((result.entries.insert e).elems ++ ents).map cache_entry.key).Nodup := by
        rw [hinsert, List.append_assoc, List.singleton_append]
        exact hnodup
      obtain ⟨c, hc, helems⟩ := @ih fuel (n + 1)
        { result with entries := result.entries.insert e } hfits hne (by omega) (by omega) hnodup'
      refine ⟨c, ?_, ?_⟩
      · rw [load_loop, List.flatMap_cons, read_entry_bytes hfit hname, Result.ok_bind]
        dsimp only
        rw [if_neg (by omega), hc]
      · rw [helems, hinsert, List.append_assoc, List.singleton_append]

/-- An entry without a name ends the loop. -/
theorem load_loop_nameless {ents : List cache_entry} {fuel n : ℕ} {result : Cache}
    (hfits : ∀ e ∈ ents, Fits e) {e : cache_entry} (he : e ∈ ents) (hnil : e.first = []) :
    ¬ (load_loop filename stack nq fuel n result (some (ents.flatMap entry_bytes))).returns := by
  induction ents generalizing fuel n result with
  | nil => exact absurd he (by simp)
  | cons e₀ ents ih =>
      obtain ⟨hfit, hfits⟩ := List.forall_mem_cons.mp hfits
      cases fuel with
      | zero => exact Result.not_returns_error _
      | succ fuel =>
          rw [load_loop, List.flatMap_cons]
          by_cases hname : e₀.first = []
          · rw [read_entry_nameless hname, Result.error_bind]
            exact Result.not_returns_error _
          · have hmem : e ∈ ents := by
              rcases List.mem_cons.mp he with rfl | he
              · exact absurd hnil hname
              · exact he
            rw [read_entry_bytes hfit hname, Result.ok_bind]
            dsimp only
            split_ifs
            · exact Result.not_returns_error _
            · exact ih hfits hmem

end LoadLoop

/-! ## A saved cache -/

theorem length_le_flatMap (ents : List cache_entry) :
    ents.length ≤ (ents.flatMap entry_bytes).length := by
  induction ents with
  | nil => simp
  | cons e ents ih =>
      have hpos : 4 ≤ (entry_bytes e).length := by
        rw [entry_bytes, List.length_append]
        have : (ascii "entr").length = 4 := by decide
        omega
      rw [List.flatMap_cons, List.length_append, List.length_cons]
      omega

/-- The header of a saved file is taken, and the entries are read. -/
theorem load_saved {ents : List cache_entry} (hsize : ents.length < 2 ^ 64) (filename : String)
    (stack : List UInt8) (minttl : ℕ) :
    load filename stack (some (file_bytes ents)) minttl = (do
      let result ← load_loop filename stack ents.length ((file_bytes ents).length + 1) 0
        (empty minttl) (some (ents.flatMap entry_bytes))
      if result.entries.elems.length < ents.length then .error (.runtime_error "too few entries")
      else .ok result) := by
  have hnq : value (bytes 8 ents.length) = ents.length := value_bytes_of_lt (by omega)
  have hmagick : value (bytes 4 magick) = magick := value_bytes_of_lt (by decide)
  rw [load]
  dsimp only
  generalize (file_bytes ents).length + 1 = fuel
  rw [file_bytes, crd4_append _ (by decide)]
  dsimp only
  rw [if_neg (by simp), crd_append (bytes_length _ _), Result.ok_bind]
  dsimp only
  rw [hmagick, if_neg (by simp), crd4_append _ (by decide)]
  dsimp only
  rw [if_neg (by simp), load_entries, crd_append (bytes_length _ _), Result.ok_bind]
  dsimp only
  rw [hnq]

/-- Entries with names are loaded as they were saved. -/
theorem load_save {ents : List cache_entry} (hfits : ∀ e ∈ ents, Fits e)
    (hnodup : (ents.map cache_entry.key).Nodup) (hsize : ents.length < 2 ^ 64)
    (hne : ∀ e ∈ ents, e.first ≠ []) (filename : String) (stack : List UInt8) (minttl : ℕ) :
    ∃ c, load filename stack (some (file_bytes ents)) minttl = .ok c ∧ c.entries.elems = ents := by
  have hfuel : ents.length < (file_bytes ents).length + 1 := by
    have hle := length_le_flatMap ents
    rw [file_bytes]
    simp only [List.length_append]
    omega
  obtain ⟨c, hc, helems⟩ := @load_loop_entries filename stack ents.length ents _ 0 (empty minttl)
    hfits hne (by omega) hfuel hnodup
  have hempty : (empty minttl).entries.elems = [] := rfl
  rw [hempty, List.nil_append] at helems
  refine ⟨c, ?_, helems⟩
  rw [load_saved hsize, hc, Result.ok_bind, helems, if_neg (by omega)]

/-- An entry without a name makes the file unreadable. -/
theorem load_save_nameless {ents : List cache_entry} (hfits : ∀ e ∈ ents, Fits e)
    (hsize : ents.length < 2 ^ 64) {e : cache_entry} (he : e ∈ ents) (hnil : e.first = [])
    (filename : String) (stack : List UInt8) (minttl : ℕ) :
    ¬ (load filename stack (some (file_bytes ents)) minttl).returns := by
  rw [load_saved hsize, Result.returns_bind]
  rintro ⟨c, hc, -⟩
  exact load_loop_nameless hfits he hnil ⟨c, hc⟩

theorem eq_of_save_as {filename : String} {ents : List cache_entry} {file : List UInt8}
    (h : save_as filename true ents = .ok file) : file = file_bytes ents := by
  rw [save_as, if_pos rfl] at h
  exact (Except.ok.inj h).symm

/-! ## Reachable caches -/

/-- A clock that is a `std::time_t` for as long as a deadline reaches. -/
def InClock (t : ℤ) : Prop := -2 ^ 63 ≤ t ∧ t + max_ttl < 2 ^ 63

/-- The operations of a history that only stores. -/
def stores (history : List (ℤ × Query)) : List Op := history.map fun p => .store p.1 p.2

theorem life_nonneg (minttl : ℕ) (m : Query) : 0 ≤ life minttl m := by
  unfold life
  have : (0 : ℤ) ≤ max_ttl := by decide
  apply le_min this
  exact le_trans (Int.natCast_nonneg minttl) (le_max_right _ _)

/-- The characters of a lower-case name are bytes. -/
theorem toNat_ascii_tolower {q : Query} {owner : Str} {class_ type : ℕ}
    (h : q.get_question = .ok (owner, class_, type)) :
    ∀ ch ∈ ascii_tolower owner, ch.toNat < 256 := by
  intro ch hch
  obtain ⟨c, hc, rfl⟩ := List.mem_map.mp hch
  have hlt : c.toNat < 256 := by
    rcases Query.get_question_chars h c hc with rfl | ⟨b, -, rfl⟩
    · decide
    · rw [Query.char_of_toNat]
      exact b.toNat_lt
  rcases toLower_cases c with h | ⟨-, h₁, h₂⟩
  · rw [h]
    exact hlt
  · omega

/-- **The entries of a reachable cache** are within the limits of the file. -/
theorem run_fits {minttl : ℕ} {history : List (ℤ × Query)} (hclock : ∀ p ∈ history, InClock p.1)
    {e : cache_entry} (he : e ∈ (run minttl (stores history)).entries.elems) : Fits e := by
  have e₁ : max_host_name_length = 256 := rfl
  have hlook : (run minttl (stores history)).entries.lookup e.key = some e :=
    KeyedSet.lookup_eq_some.mpr ⟨he, rfl⟩
  obtain ⟨t, m, hmem, hfiled, heq⟩ := run_entry hlook
  obtain ⟨owner, type, hq, hk⟩ := accepted_eq_some (accepted_of_filed hfiled)
  rw [hk] at heq
  have hname := (Query.get_question_name hq).1
  have hchars := toNat_ascii_tolower hq
  have htype := Query.get_question_type_lt hq
  have hlen := Query.size_of_get_question hq
  have hle := m.size_le
  obtain ⟨p, hp, hop⟩ := List.mem_map.mp hmem
  obtain ⟨hlo, hhi⟩ := hclock p hp
  have ht : p.1 = t := (Op.store.inj hop).1
  have hnonneg := life_nonneg minttl m
  have hlife : life minttl m ≤ max_ttl := life_le minttl m
  rw [heq]
  refine ⟨?_, hchars, htype, ?_, ?_, ?_, ?_⟩
  · show (ascii_tolower owner).length ≤ 300
    rw [ascii_tolower, List.length_map]
    omega
  · show -2 ^ 63 ≤ t + life minttl m
    omega
  · show t + life minttl m < 2 ^ 63
    omega
  · show 12 ≤ m.wire.length
    rw [Query.wire_length]
    omega
  · show m.wire.length ≤ max_size
    rw [Query.wire_length]
    exact hle

/-- What was filed has an entry, when nothing but `store` was called. -/
theorem lookup_of_filed {minttl : ℕ} {history : List (ℤ × Query)} {p : ℤ × Query} {k : Str × ℕ}
    (hp : p ∈ history) (hk : filed p.2 = some k) :
    ∃ e, (run minttl (stores history)).entries.lookup k = some e := by
  induction history using List.reverseRecOn with
  | nil => exact absurd hp (by simp)
  | append_singleton history last ih =>
      have hstep : run minttl (stores (history ++ [last]))
          = (run minttl (stores history)).step (.store last.1 last.2) := by
        rw [stores, List.map_append, run, List.foldl_append]
        rfl
      rw [hstep, step_store_filed]
      by_cases hlast : filed last.2 = some k
      · rw [if_pos hlast]
        exact ⟨_, rfl⟩
      · rw [if_neg hlast]
        apply ih
        rcases List.mem_append.mp hp with hp | hp
        · exact hp
        · rw [List.mem_singleton.mp hp] at hk
          exact absurd hk hlast

/-- **The file of a reachable cache.** Whatever was stored and in whatever order the set
goes over its entries, the file can be loaded and gives the same entries exactly when no
message for the root name was filed. -/
theorem load_save_iff {minttl minttl' : ℕ} {history : List (ℤ × Query)}
    (hclock : ∀ p ∈ history, InClock p.1) {ents : List cache_entry}
    (hents : ents.Perm (run minttl (stores history)).entries.elems) (hsize : ents.length < 2 ^ 64)
    (filename : String) (stack : List UInt8) :
    (∃ file c, save_as filename true ents = .ok file ∧
        load filename stack (some file) minttl' = .ok c ∧
        ∀ e, e ∈ c.entries.elems ↔ e ∈ (run minttl (stores history)).entries.elems) ↔
      ∀ p ∈ history, ∀ type, filed p.2 ≠ some ([], type) := by
  have hfits : ∀ e ∈ ents, Fits e := fun e he => run_fits hclock (hents.mem_iff.mp he)
  constructor
  · rintro ⟨file, c, hsave, hload, -⟩ p hp type hfiled
    obtain ⟨e, he⟩ := @lookup_of_filed minttl _ _ _ hp hfiled
    obtain ⟨hmem, hkey⟩ := KeyedSet.lookup_eq_some.mp he
    have hnil : e.first = [] := (Prod.mk.inj hkey).1
    rw [eq_of_save_as hsave] at hload
    exact load_save_nameless hfits hsize (hents.mem_iff.mpr hmem) hnil filename stack minttl'
      ⟨c, hload⟩
  · intro hroot
    have hne : ∀ e ∈ ents, e.first ≠ [] := by
      intro e he hnil
      have hlook : (run minttl (stores history)).entries.lookup e.key = some e :=
        KeyedSet.lookup_eq_some.mpr ⟨hents.mem_iff.mp he, rfl⟩
      obtain ⟨t, m, hmem, hfiled, -⟩ := run_entry hlook
      obtain ⟨p, hp, hop⟩ := List.mem_map.mp hmem
      have hm : p.2 = m := (Op.store.inj hop).2
      apply hroot p hp e.second
      rw [hm, hfiled, cache_entry.key, hnil]
    have hnodup : (ents.map cache_entry.key).Nodup :=
      ((hents.map cache_entry.key).nodup_iff).mpr (run minttl (stores history)).entries.nodup
    obtain ⟨c, hload, helems⟩ := load_save hfits hnodup hsize hne filename stack minttl'
    refine ⟨file_bytes ents, c, if_pos rfl, hload, fun e => ?_⟩
    rw [helems]
    exact hents.mem_iff

/-- The file of a cache with one answer. -/
theorem load_save_iff_sample : ∃ file c,
    save_as "dnscache.bin" true (run 60 (stores [(100, sample)])).entries.elems = .ok file ∧
      load "dnscache.bin" [] (some file) 60 = .ok c ∧
      ∀ e, e ∈ c.entries.elems ↔ e ∈ (run 60 (stores [(100, sample)])).entries.elems := by
  refine (@load_save_iff 60 60 [(100, sample)] ?_ _ (List.Perm.refl _) (by decide) "dnscache.bin"
    []).mpr ?_
  · intro p hp
    rw [List.mem_singleton.mp hp]
    exact ⟨by decide, by decide⟩
  · -- it is filed under a name with one letter
    intro p hp type hfiled
    rw [List.mem_singleton.mp hp] at hfiled
    obtain ⟨owner, type', hq, hk⟩ := accepted_eq_some (accepted_of_filed hfiled)
    have hname : sample.get_question = .ok ("a.".toList, 1, 1) := rfl
    obtain ⟨rfl, -⟩ := Query.get_question_unique hname hq
    simp [ascii_tolower] at hk

/-- A question for the name servers of the root. -/
def sampleRoot : Query :=
  Query.of_bytes [0, 1, 0, 0, 0, 1, 0, 0, 0, 0, 0, 0, 0, 0, 2, 0, 1] (by decide)

/-- **A message for the root name** is filed, and the file cannot be loaded. -/
theorem load_save_root : sampleRoot.is_dns = true ∧ ∃ file,
    save_as "dnscache.bin" true (run 60 (stores [(100, sampleRoot)])).entries.elems = .ok file ∧
      ¬ (load "dnscache.bin" [] (some file) 60).returns := by
  refine ⟨by decide, _, if_pos rfl, ?_⟩
  have hclock : ∀ p ∈ [((100 : ℤ), sampleRoot)], InClock p.1 := by
    intro p hp
    rw [List.mem_singleton.mp hp]
    exact ⟨by decide, by decide⟩
  have hentry : (run 60 (stores [(100, sampleRoot)])).entries.elems
      = [⟨[], 2, 160, sampleRoot.wire⟩] := by rfl
  have hmem : ⟨[], 2, 160, sampleRoot.wire⟩ ∈ (run 60 (stores [(100, sampleRoot)])).entries.elems := by
    rw [hentry]
    exact List.mem_singleton_self _
  exact load_save_nameless (fun e he => run_fits hclock he) (by rw [hentry]; norm_num) hmem rfl _ [] 60

end Cdns.Cache
