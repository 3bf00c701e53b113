/-
`network::packet` (`network/packet.hxx`, `network/srcz/packet.cpp`) and the two
connections that move packets, `network/srcz/connection.cpp`.

A packet has more storage than its message needs, and `append` joins the messages whatever
storage there is (`append_wire`). Where the first packet has spare storage it copies all of the
storage of the second one, which can take it past 65535 bytes (`append_iff`).

A socket is what the system calls will answer: one entry for each segment that
arrives, or a failure. A call asks for at most so many bytes, and what it leaves
of a segment is the first thing the next call gets.

`tcp_send` puts the length of a message in front of it and `tcp_receive` reads
segments until that many bytes are there. It reads the length from the first
segment alone, so the framing survives exactly the segmentations whose first
segment holds both bytes of the length (`tcp_receive_iff`).
-/
import Cdns.Exn
import Cdns.Lib.Buffer

set_option autoImplicit false

namespace Cdns

open Lib.Storage

/-! ## Packets -/

/-- `network::packet`: `reserved` bytes of storage, the first `size` of which are
the message. -/
structure packet where
  bytes : Buffer
  reserved : ℕ
  size : ℕ
  size_le : size ≤ reserved

namespace packet

/-- The bytes of the message. -/
def wire (p : packet) : List UInt8 := slice p.bytes 0 p.size

@[simp] theorem wire_length (p : packet) : p.wire.length = p.size := slice_length _ _ _

/-- `packet::packet ()`. -/
def empty : packet := ⟨fun _ => 0, 0, 0, le_refl 0⟩

/-- `packet::packet (b, l)`. -/
def of_bytes (l : List UInt8) : packet := ⟨ofList l, l.length, l.length, le_refl _⟩

/-- `packet::reserved_size`, an `unsigned short`. -/
def reserved_size (p : packet) : ℕ := p.reserved % 65536

/-- `packet::append (other)`. -/
def append (p other : packet) : packet :=
  let new_size := p.size + other.size
  if p.reserved = p.size then
    { bytes := write p.bytes p.size (slice other.bytes 0 other.size)
      reserved := p.size + other.size
      size := new_size % 65536
      size_le := Nat.mod_le _ _ }
  else
    let sz := min (p.reserved - p.size) other.reserved
    let bytes := write p.bytes p.size (slice other.bytes 0 sz)
    -- what does not fit in the storage goes behind it
    { bytes := write bytes p.reserved (slice other.bytes sz (other.reserved - sz))
      reserved := p.reserved + (other.reserved - sz)
      size := new_size % 65536
      size_le := by
        have h₁ := p.size_le
        have h₂ := other.size_le
        have h₃ : new_size % 65536 ≤ new_size := Nat.mod_le _ _
        have h₄ : new_size = p.size + other.size := rfl
        have h₅ : sz ≤ p.reserved - p.size := min_le_left _ _
        have h₆ : sz ≤ other.reserved := min_le_right _ _
        omega }

/-- Without spare storage, the message of the other packet goes behind the storage. -/
theorem append_full {p : packet} (h : p.reserved = p.size) (other : packet) :
    (p.append other).bytes = write p.bytes p.size (slice other.bytes 0 other.size) ∧
      (p.append other).reserved = p.size + other.size := by
  rw [append]
  dsimp only
  rw [if_pos h]
  exact ⟨rfl, rfl⟩

/-- With spare storage, all the storage of the other packet goes behind the message, and the
packet grows if that does not fit. -/
theorem append_spare {p : packet} (h : p.reserved ≠ p.size) (other : packet) :
    (p.append other).bytes = write p.bytes p.size (slice other.bytes 0 other.reserved) ∧
      (p.append other).reserved = max p.reserved (p.size + other.reserved) := by
  have hle := p.size_le
  rw [append]
  dsimp only
  rw [if_neg h]
  dsimp only
  by_cases hfit : other.reserved ≤ p.reserved - p.size
  · -- the copy takes all of it, and nothing is left to insert
    rw [min_eq_right hfit, Nat.sub_self]
    exact ⟨write_nil _ _, by omega⟩
  · rw [min_eq_left (by omega)]
    refine ⟨?_, by omega⟩
    -- the inserted part starts where the copied one ends
    have hend : p.reserved = p.size + (slice other.bytes 0 (p.reserved - p.size)).length := by
      rw [slice_length]
      omega
    have hall : other.reserved
        = (p.reserved - p.size) + (other.reserved - (p.reserved - p.size)) := by omega
    have hslice : slice other.bytes 0 other.reserved
        = slice other.bytes 0 (p.reserved - p.size)
          ++ slice other.bytes (p.reserved - p.size)
            (other.reserved - (p.reserved - p.size)) := by
      have hsum := slice_add other.bytes 0 (p.reserved - p.size)
        (other.reserved - (p.reserved - p.size))
      rw [← hall, Nat.zero_add] at hsum
      exact hsum
    rw [hslice, write_append, ← hend]

@[simp] theorem append_size (p other : packet) :
    (p.append other).size = (p.size + other.size) % 65536 := by
  rw [append]
  dsimp only
  by_cases h : p.reserved = p.size
  · rw [if_pos h]
  · rw [if_neg h]

/-- **The messages are joined**, whatever storage the two packets have. -/
theorem append_wire (p other : packet) (hsize : p.size + other.size < 65536) :
    (p.append other).wire = p.wire ++ other.wire := by
  have hle := other.size_le
  have hbytes : ∃ n, other.size ≤ n ∧
      (p.append other).bytes = write p.bytes p.size (slice other.bytes 0 n) := by
    by_cases h : p.reserved = p.size
    · exact ⟨other.size, le_refl _, (append_full h other).1⟩
    · exact ⟨other.reserved, hle, (append_spare h other).1⟩
  obtain ⟨n, hn, hbytes⟩ := hbytes
  rw [wire, append_size, Nat.mod_eq_of_lt hsize, hbytes, slice_add, Nat.zero_add,
    slice_write_disjoint _ (Or.inl (by omega)), slice_write_slice _ _ _ hn]
  rfl

/-- What `append` should do: the size is the sum, the message is the first one with the second
one behind it, and `reserved_size` still tells the size of the storage. -/
structure Appended (p other q : packet) : Prop where
  size : q.size = p.size + other.size
  wire : q.wire = p.wire ++ other.wire
  room : q.size ≤ q.reserved
  reserved : q.reserved ≤ 65535
  exact_size : q.reserved_size = q.reserved

/-- **When a packet is appended.** For a packet of at most 65535 bytes and another one whose
message fits behind its message into as many, everything is as it should be exactly when the
first one has no spare storage, or its message and the whole storage of the second one fit
into 65535 bytes. -/
theorem append_iff {p other : packet} (hp : p.reserved ≤ 65535)
    (hsize : p.size + other.size ≤ 65535) :
    Appended p other (p.append other) ↔
      p.reserved = p.size ∨ p.size + other.reserved ≤ 65535 := by
  have hreserved : (p.append other).reserved ≤ 65535 ↔
      p.reserved = p.size ∨ p.size + other.reserved ≤ 65535 := by
    by_cases h : p.reserved = p.size
    · rw [(append_full h other).2]
      exact iff_of_true hsize (Or.inl h)
    · rw [(append_spare h other).2]
      omega
  rw [← hreserved]
  refine ⟨fun h => h.reserved, fun h => ?_⟩
  exact ⟨by rw [append_size]; omega, append_wire p other (by omega), (p.append other).size_le, h,
    Nat.mod_eq_of_lt (by omega)⟩

/-- A packet of two bytes, one of which is its message. -/
def sampleSpare : packet := ⟨ofList [1, 0], 2, 1, by decide⟩

/-- A packet of 65535 bytes, one of which is its message. -/
def sampleReserved : packet := ⟨ofList [2], 65535, 1, by decide⟩

theorem append_iff_sample : Appended sampleSpare sampleSpare (sampleSpare.append sampleSpare) :=
  (append_iff (by decide) (by decide)).mpr (Or.inr (by decide))

/-- **The unused storage is copied, too.** A packet with one spare byte grows to 65536 bytes by a
message of one byte, and `reserved_size` is 0 then. -/
theorem append_outgrows : (sampleSpare.append sampleReserved).size = 2 ∧
    (sampleSpare.append sampleReserved).reserved = 65536 ∧
    (sampleSpare.append sampleReserved).reserved_size = 0 ∧
    ¬ Appended sampleSpare sampleReserved (sampleSpare.append sampleReserved) := by
  have hgrown : (sampleSpare.append sampleReserved).reserved = 65536 :=
    (append_spare (by decide) sampleReserved).2
  refine ⟨by rw [append_size]; rfl, hgrown, by rw [reserved_size, hgrown], fun h => ?_⟩
  have hle := h.reserved
  rw [hgrown] at hle
  exact absurd hle (by decide)

end packet

/-! ## Sockets -/

/-- What the calls on a socket will answer: the segments in their order of
arrival, with `none` for a call that fails. An empty segment is the end of the
stream. -/
abbrev tcp_socket := List (Option (List UInt8))

/-- `tcp::receive`: at most `len` bytes. A call on a socket that has nothing fails. -/
def recv (len : ℕ) : tcp_socket → Option (List UInt8) × tcp_socket
  | [] => (none, [])
  | none :: s => (none, s)
  | some c :: s =>
      if c.length ≤ len then (some c, s) else (some (c.take len), some (c.drop len) :: s)

/-- A segment for which there is room comes whole. -/
theorem recv_cons {len : ℕ} {c : List UInt8} (h : c.length ≤ len) (s : tcp_socket) :
    recv len (some c :: s) = (some c, s) := by
  rw [recv, if_pos h]

/-! ## `tcp_connection` -/

/-- What `tcp_send` hands to `tcp::send`: the length as an `unsigned short`, most
significant byte first, and the message. -/
def tcp_frame (message : packet) : packet :=
  (packet.empty.append (packet.of_bytes (bytes16 (message.size % 65536)))).append message

/-- `tcp_connection::tcp_send`; `send` is the answer of `tcp::send`. -/
def tcp_send (send : List UInt8 → Option ℕ) (message : packet) : Result Unit :=
  let q := tcp_frame message
  match send q.wire with
  | none => .error (.net_error s!"Failed to TCP-send: {message.size} bytes")
  | some n =>
      if n = 0 then .error (.net_error "connection[TCP,send] reset by peer?")
      else if q.size ≠ n then .error (.logic_error "buffered TCP is not supported")
      else .ok ()

/-- The loop of `tcp_receive`: each call asks for the whole rest of the buffer. -/
def tcp_receive_loop (reserved tcp_n : ℕ) (q : Buffer) (n : ℕ) (s : tcp_socket) :
    Result (Buffer × ℕ × tcp_socket) :=
  if _hn : n < tcp_n then
    match recv (reserved - n) s with
    | (none, _) => .error (.net_error "tcp receive failure")
    | (some c, s) =>
        if _hc : c.length = 0 then .error (.net_error "tcp receive failure")
        else tcp_receive_loop reserved tcp_n (write q n c) (n + c.length) s
  else .ok (q, n, s)
termination_by tcp_n - n
decreasing_by omega

/-- `tcp_connection::tcp_receive`. -/
def tcp_receive (s : tcp_socket) (message : packet) : Result (packet × tcp_socket) :=
  let reserved := message.reserved_size
  match recv reserved s with
  | (none, _) => .error (.net_error "Failed to receive[TCP]")
  | (some c, s) => do
      let n := c.length
      let q := write (fun _ => 0) 0 c
      if n = 0 then .error (.net_error "No data in TCP stream")
      else if n < 2 then .error (.runtime_error "not enough data in TCP message")
      else
        let msg_size := be16 q 0
        if msg_size = 0 then .error (.runtime_error "zero length TCP message")
        else
          let tcp_n := msg_size + 2
          if 65535 < tcp_n then .error (.runtime_error "Too large TCP message")
          else if tcp_n > reserved then .error (.runtime_error "too long TCP message")
          else
            let (q, n, s) ← tcp_receive_loop reserved tcp_n q n s
            if tcp_n ≠ n then
              .error (.logic_error s!"TCP message size mismatch, received: {n} != {tcp_n}")
            else .ok (message.append (packet.of_bytes (slice q 2 (n - 2))), s)

/-! ## `udp_connection` -/

/-- `udp_connection::udp_receive`: one datagram, cut to the buffer. -/
def udp_receive (datagram : Option (List UInt8)) (message : packet) : Result packet :=
  match datagram with
  | none => .error (.net_error "Failed to receive[UDP]")
  | some c =>
      let c := c.take message.reserved_size
      if c.length = 0 then .error (.net_error "Connection reset by peer? [UDP recv]")
      else .ok { message with
        bytes := write message.bytes 0 c
        size := c.length
        size_le := by
          have h₁ : c.length ≤ message.reserved_size := by
            rw [List.length_take]
            exact min_le_left _ _
          have h₂ : message.reserved_size ≤ message.reserved := Nat.mod_le _ _
          omega }

/-! ## Framing -/

/-- The stream of `tcp_send`: two bytes of length, then the message. -/
theorem tcp_frame_wire {p : packet} (h : p.size ≤ 65533) :
    (tcp_frame p).wire = bytes16 p.size ++ p.wire := by
  have hlt : p.size % 65536 = p.size := Nat.mod_eq_of_lt (by omega)
  have hhead : (packet.empty.append (packet.of_bytes (bytes16 p.size))).wire = bytes16 p.size := by
    rw [packet.append_wire _ _ (by simp [packet.empty, packet.of_bytes])]
    exact slice_ofList _
  rw [tcp_frame, hlt, packet.append_wire, hhead]
  show 2 + p.size < 65536
  omega

/-- **The loop collects the missing bytes.** When the segments still to come are
not empty and make up the message exactly, the loop stores all of them. -/
theorem tcp_receive_loop_eq {reserved tcp_n : ℕ} {cs : List (List UInt8)}
    (hcs : ∀ c ∈ cs, c ≠ []) (hr : tcp_n ≤ reserved) :
    ∀ (q : Buffer) (n : ℕ), n + cs.flatten.length = tcp_n →
      tcp_receive_loop reserved tcp_n q n (cs.map some) = .ok (write q n cs.flatten, tcp_n, []) := by
  induction cs with
  | nil =>
      intro q n hn
      rw [List.flatten_nil, List.length_nil, Nat.add_zero] at hn
      rw [tcp_receive_loop, dif_neg (by omega), hn, List.flatten_nil]
      -- nothing is written any more
      have hnil : write q tcp_n [] = q := funext fun i => write_apply_outside q (by simp; omega)
      rw [hnil]
      rfl
  | cons c cs ih =>
      intro q n hn
      rw [List.flatten_cons, List.length_append] at hn
      have hpos : 0 < c.length := List.length_pos_iff.mpr (hcs c (by simp))
      have hrec : recv (reserved - n) ((c :: cs).map some) = (some c, cs.map some) :=
        recv_cons (by omega) _
      rw [tcp_receive_loop, dif_pos (by omega), hrec]
      dsimp only
      rw [dif_neg (by omega),
        ih (fun d hd => hcs d (by simp [hd])) (write q n c) (n + c.length) (by omega),
        List.flatten_cons, write_append]

section Framing

variable {p message : packet} {c : List UInt8} {cs : List (List UInt8)}

/-- The length that is read from a first segment of at least two bytes. -/
theorem be16_first_segment (hp : p.size ≤ 55533) (hcut : c ++ cs.flatten = (tcp_frame p).wire)
    (hc : 2 ≤ c.length) : be16 (write (fun _ => 0) 0 c) 0 = p.size := by
  rw [tcp_frame_wire (by omega)] at hcut
  have hhead : c.take 2 = bytes16 p.size := by
    have := congrArg (List.take 2) hcut
    rwa [List.take_append_of_le_length hc,
      List.take_append_of_le_length (by rw [bytes16_length])] at this
  have hc' : c = bytes16 p.size ++ c.drop 2 := by
    rw [← hhead, List.take_append_drop]
  rw [hc', write_append]
  have hsame := be16_write_same (fun _ => 0) 0 p.size
  rw [Nat.mod_eq_of_lt (by omega)] at hsame
  refine Eq.trans (be16_congr ?_ ?_) hsame
  · exact write_apply_outside _ (Or.inl Nat.zero_lt_two)
  · exact write_apply_outside _ (Or.inl Nat.one_lt_two)

/-- A first segment of one byte is refused. -/
theorem tcp_receive_short (hres : message.reserved_size = 55535) (hc : c.length = 1) :
    tcp_receive (some c :: cs.map some) message =
      .error (.runtime_error "not enough data in TCP message") := by
  rw [tcp_receive, hres]
  dsimp only
  rw [recv_cons (by omega)]
  dsimp only
  rw [if_neg (by omega), if_pos (by omega)]

/-- After a first segment of at least two bytes the message arrives. -/
theorem tcp_receive_returns (hp : 1 ≤ p.size) (hp' : p.size ≤ 55533) (hempty : message.size = 0)
    (hres : message.reserved_size = 55535) (hcut : c ++ cs.flatten = (tcp_frame p).wire)
    (hcs : ∀ d ∈ cs, d ≠ []) (hc : 2 ≤ c.length) :
    ∃ message', tcp_receive (some c :: cs.map some) message = .ok (message', []) ∧
      message'.wire = p.wire := by
  have hlen : c.length + cs.flatten.length = p.size + 2 := by
    have := congrArg List.length hcut
    rw [tcp_frame_wire (by omega), List.length_append, List.length_append, bytes16_length,
      packet.wire_length] at this
    omega
  have hsize := be16_first_segment hp' hcut hc
  have hloop := @tcp_receive_loop_eq 55535 (p.size + 2) cs hcs (by omega)
    (write (fun _ => 0) 0 c) c.length hlen
  have hq : write (write (fun _ => 0) 0 c) c.length cs.flatten =
      write (fun _ => 0) 0 (bytes16 p.size ++ p.wire) := by
    have := write_append (fun _ => 0) 0 c cs.flatten
    rw [Nat.zero_add] at this
    rw [← this, hcut, tcp_frame_wire (by omega)]
  -- what is stored behind the length is the message
  have hmsg : slice (write (fun _ => 0) 0 (bytes16 p.size ++ p.wire)) 2 p.size = p.wire := by
    have := slice_write_same (write (fun _ => 0) 0 (bytes16 p.size)) 2 p.wire
    rw [packet.wire_length] at this
    rw [write_append]
    exact this
  refine ⟨message.append (packet.of_bytes p.wire), ?_, ?_⟩
  · rw [tcp_receive, hres]
    dsimp only
    rw [recv_cons (by omega)]
    dsimp only
    rw [if_neg (by omega), if_neg (by omega), hsize, if_neg (by omega), if_neg (by omega),
      if_neg (by omega), hloop, Result.ok_bind]
    dsimp only
    rw [if_neg (by simp), hq, Nat.add_sub_cancel, hmsg]
  · have hlen : (packet.of_bytes p.wire).size = p.size := p.wire_length
    rw [packet.append_wire _ _ (by omega), packet.wire, hempty]
    exact slice_ofList p.wire

end Framing

/-- **TCP framing.** A message of 1 to 55533 bytes is sent, and its stream arrives
cut into segments `cs` that are not empty. `tcp_receive` into an empty packet of
55535 bytes returns the message exactly when the first segment has at least two
bytes. -/
theorem tcp_receive_iff {p message : packet} {cs : List (List UInt8)} (hp : 1 ≤ p.size)
    (hp' : p.size ≤ 55533) (hempty : message.size = 0) (hres : message.reserved_size = 55535)
    (hcut : cs.flatten = (tcp_frame p).wire) (hcs : ∀ c ∈ cs, c ≠ []) :
    (∃ message' s, tcp_receive (cs.map some) message = .ok (message', s) ∧
      message'.wire = p.wire) ↔ 2 ≤ (cs.headD []).length := by
  cases cs with
  -- a message is not empty, so there is a first segment
  | nil =>
      rw [tcp_frame_wire (by omega)] at hcut
      exact absurd hcut (by simp [bytes16])
  | cons c cs =>
      rw [List.flatten_cons] at hcut
      show _ ↔ 2 ≤ c.length
      have hpos : 0 < c.length := List.length_pos_iff.mpr (hcs c (by simp))
      -- the length is read from that segment alone
      by_cases hc : 2 ≤ c.length
      · obtain ⟨message', h, hwire⟩ := tcp_receive_returns hp hp' hempty hres hcut
          (fun d hd => hcs d (by simp [hd])) hc
        exact iff_of_true ⟨message', [], h, hwire⟩ hc
      · refine iff_of_false ?_ hc
        rintro ⟨message', s, h, -⟩
        have hshort := @tcp_receive_short message c cs hres (by omega)
        rw [List.map_cons, hshort] at h
        exact absurd h (by simp)

/-- An empty packet of the size that the program receives into. -/
def sampleEmpty : packet := ⟨fun _ => 0, 55535, 0, by omega⟩

theorem tcp_receive_two_segments :
    ∃ message' s, tcp_receive (([[0, 1], [7]] : List (List UInt8)).map some) sampleEmpty =
      .ok (message', s) ∧ message'.wire = (packet.of_bytes [7]).wire :=
  (@tcp_receive_iff (packet.of_bytes [7]) sampleEmpty [[0, 1], [7]] (by decide) (by decide) rfl
    (by decide) (by decide) (by decide)).mpr (by decide)

/-- The same stream, with the two bytes of the length in two segments. -/
theorem tcp_receive_split_length :
    ([[0], [1, 7]] : List (List UInt8)).flatten = (tcp_frame (packet.of_bytes [7])).wire ∧
      tcp_receive (([[0], [1, 7]] : List (List UInt8)).map some) sampleEmpty =
        .error (.runtime_error "not enough data in TCP message") :=
  ⟨by decide, tcp_receive_short (by decide) rfl⟩

end Cdns
