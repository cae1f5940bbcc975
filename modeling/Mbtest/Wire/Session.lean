import Mbtest.TcpConnection.Session
import Mbtest.Client.Reader

/-! A whole session: a stream of commands goes in, a stream of frames comes out, and
the client's reader takes the frames apart again. -/
namespace Mbtest.Wire
open Lib TcpConnection Client

/-- A stream cut into units of a code byte and a big-endian argument; an incomplete
last unit is dropped. -/
def units : List UInt8 → List (UInt8 × UInt16)
  | c :: hi :: lo :: bs => (c, UInt16.ofNat (ofBytes [hi, lo])) :: units bs
  | _ => []

/-- The responses to units, the `i`-th unit finding the tables `views i`. -/
def responses (views : ℕ → ServedView) : ℕ → List (UInt8 × UInt16) → List (List UInt8)
  | _, [] => []
  | i, u :: us => (response (views i) u).toList ++ responses views (i + 1) us

def readResponses {S : Type} (o : ByteOrder) (read : Source S) : ℕ → S → List (List UInt8) × S
  | 0, s => ([], s)
  | n + 1, s =>
    let (r, s) := readResponse o read s
    let (rs, s) := readResponses o read n s
    (r :: rs, s)

theorem units_short {bs : List UInt8} (hbs : bs.length < 3) : units bs = [] := by
  rcases bs with _ | ⟨a, _ | ⟨b, _ | ⟨c, bs⟩⟩⟩
  · rfl
  · rfl
  · rfl
  · simp only [List.length_cons] at hbs
    omega

theorem run_units (o : ByteOrder) (views : ℕ → ServedView) (bs : List UInt8) (i : ℕ) :
    ∃ written, (∀ extra, run o streamRead (fun _ => true)
        (fun j => ModbusServer.service (views j).view) (bs.length + 1 + extra) i bs =
          .ok (some ⟨[], units bs, written⟩)) ∧
      written.flatten = (responses views i (units bs)).flatMap (frame 4) := by
  induction bs using units.induct generalizing i with
  | case1 c hi lo bs ih =>
    obtain ⟨later, hrun, hlater⟩ := ih (i + 1)
    obtain ⟨ws, hws, hflat⟩ :=
      dispatch_response o (views i) (c, UInt16.ofNat (ofBytes [hi, lo]))
    refine ⟨ws ++ later, fun extra => ?_, ?_⟩
    · have hfuel : (c :: hi :: lo :: bs).length + 1 + extra = (bs.length + 1 + (extra + 2)) + 1 := by
        simp only [List.length_cons]
        omega
      rw [hfuel, run, readRequest_unit]
      simp only [if_true, Bool.false_eq_true, if_false, hws, hrun]
      rfl
    · simp only [units, responses, List.flatMap_append, List.flatten_append, hflat, hlater]
  | case2 bs hbs =>
    have hlen : bs.length < 3 := by
      rcases bs with _ | ⟨a, _ | ⟨b, _ | ⟨c, bs⟩⟩⟩
      · simp
      · simp
      · simp
      · exact absurd rfl (hbs a b c bs)
    obtain ⟨hec, hrest⟩ := readRequest_short o hlen
    refine ⟨[], fun extra => ?_, by rw [units_short hlen]; rfl⟩
    rw [show bs.length + 1 + extra = (bs.length + extra) + 1 by omega, run, units_short hlen]
    simp only [if_true, hec, hrest]

/-- The reader takes back-to-back frames apart one by one and leaves nothing. -/
theorem readResponses_frames (o : ByteOrder) {ps : List (List UInt8)}
    (hps : ∀ p ∈ ps, p.length < 2 ^ 32) :
    readResponses o streamRead ps.length (ps.flatMap (frame 4)) = (ps, []) := by
  induction ps with
  | nil => rfl
  | cons p ps ih =>
    have hp := readResponse_frame o (hps p (by simp)) (ps.flatMap (frame 4))
    have hrest := ih fun q hq => hps q (by simp [hq])
    simp only [List.length_cons, List.flatMap_cons, readResponses, hp, hrest]

theorem length_response_le {v : ServedView} {u : UInt8 × UInt16} {p : List UInt8}
    (hp : response v u = some p) : p.length ≤ 76 := by
  obtain ⟨c, _, rfl⟩ := Option.map_eq_some_iff.mp hp
  exact length_payload_le v u.2.toNat c

theorem length_responses_le (views : ℕ → ServedView) (i : ℕ) (us : List (UInt8 × UInt16)) :
    ∀ p ∈ responses views i us, p.length ≤ 76 := by
  induction us generalizing i with
  | nil => simp [responses]
  | cons u us ih =>
    intro p hp
    rcases List.mem_append.mp hp with h | h
    · exact length_response_le (Option.mem_toList.mp h)
    · exact ih (i + 1) p h

/-- A session from its first byte to the end of the stream. -/
theorem run_session (server client : ByteOrder) (views : ℕ → ServedView) (stream : List UInt8) :
    ∃ written,
      (∀ extra, run server streamRead (fun _ => true)
        (fun i => ModbusServer.service (views i).view) (stream.length + 1 + extra) 0 stream =
          .ok (some ⟨[], units stream, written⟩)) ∧
      written.flatten = (responses views 0 (units stream)).flatMap (frame 4) ∧
      (∀ v u, (response v u).isSome ↔ ∃ c : Code, u.1 = c.toByte) ∧
      (∀ v u, ∃ ws, dispatch server (ModbusServer.service (ServedView.view v)) u.1 u.2 = .ok ws ∧
        ws.flatten = (response v u).toList.flatMap (frame 4)) ∧
      readResponses client streamRead (responses views 0 (units stream)).length written.flatten =
        (responses views 0 (units stream), []) := by
  obtain ⟨written, hrun, hflat⟩ := run_units server views stream 0
  refine ⟨written, hrun, hflat, fun v u => ?_, fun v u => dispatch_response server v u, ?_⟩
  · rw [response, Option.isSome_map]
    constructor
    · intro h
      obtain ⟨c, hc⟩ := Option.isSome_iff_exists.mp h
      exact ⟨c, Code.ofByte?_eq_some hc⟩
    · rintro ⟨c, hc⟩
      rw [hc, Code.ofByte?_toByte]
      rfl
  · rw [hflat]
    apply readResponses_frames client
    intro p hp
    have := length_responses_le views 0 _ p hp
    omega

end Mbtest.Wire
