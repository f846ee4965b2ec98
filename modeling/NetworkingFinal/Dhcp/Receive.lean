/-
  NetworkingFinal.Dhcp.Receive

  Which datagrams get past `recvfrom`, which catches `socket.error` only: an address of
  a wrong length raises it, everything else that is cut short raises other exceptions.

  - `optionPieces`: the options as keys and bytes, apart from their codecs.
  - `receives_iff`: the lengths and options of the datagrams that end no loop.
-/
import NetworkingFinal.Dhcp.Controller

namespace NetworkingFinal
namespace Dhcp

open Py Py.Prog Py.Struct

-- ============================================================================
-- Options
-- ============================================================================

/-- The options up to the End mark, as codes and bytes. -/
def optionPieces : Bytes → List (Nat × Bytes)
  | key :: length :: rest =>
      if key.toNat = DHCPOptionKey.endKey.code then []
      else (key.toNat, rest.take length.toNat) :: optionPieces (rest.drop length.toNat)
  | _ => []
termination_by data => data.length
decreasing_by simp only [List.length_drop, List.length_cons]; omega

namespace DHCPOptionKey

/-- The options whose value is an address. -/
def isAddress : DHCPOptionKey → Bool
  | requestedIPAddress | subnetMask | router | dhcpServer | domainNameServer
  | broadcastAddress => true
  | _ => false

/-- The length that the decoder wants for the bytes of an option. -/
def size? : DHCPOptionKey → Option Nat
  | messageType => some 1
  | ipAddressLeaseTime | renewalTime | rebindingTime => some 4
  | requestedIPAddress | subnetMask | router | dhcpServer | domainNameServer
  | broadcastAddress => some 4
  | paramterRequestList | padding | endKey => none

end DHCPOptionKey

/-- The bytes of the option are too long or too short for its key. -/
def missized (piece : Nat × Bytes) : Bool :=
  match (DHCPOptionKey.ofCode? piece.1).bind DHCPOptionKey.size? with
  | some n => piece.2.length != n
  | none => false

def addressPiece (piece : Nat × Bytes) : Bool :=
  match DHCPOptionKey.ofCode? piece.1 with
  | some key => key.isAddress
  | none => false

/-- If an option has a wrong length, then the first one that has is an address. -/
def OptionsReadable (data : Bytes) : Prop :=
  ∀ piece, (optionPieces data).find? missized = some piece → addressPiece piece = true

theorem unpack_number (o : Order) (c : Code) (data : Bytes) :
    (data.length = calcsize o [c] ∧ ∃ n, unpack o [c] data = .ok [n]) ∨
      (data.length ≠ calcsize o [c] ∧ unpack o [c] data = .error .structError) := by
  by_cases hlen : data.length = calcsize o [c]
  · refine Or.inl ⟨hlen, ?_⟩
    rw [unpack, if_pos hlen, unpackFrom_eq, Nat.sub_zero, if_pos hlen.ge]
    exact ⟨_, rfl⟩
  · exact Or.inr ⟨hlen, by rw [unpack, if_neg hlen]⟩

theorem inetNtoa_cases (data : Bytes) :
    (data.length = 4 ∧ ∃ text, inetNtoa data = .ok text) ∨
      (data.length ≠ 4 ∧ inetNtoa data = .error .osError) := by
  by_cases hlen : data.length = 4
  · exact Or.inl ⟨hlen, inetNtoa_of_length hlen⟩
  · refine Or.inr ⟨hlen, ?_⟩
    cases h : inetNtoa data with
    | ok text => exact absurd (length_of_inetNtoa h) hlen
    | error e => rw [fails_inetNtoa (P := fun e => e = .osError) rfl data e h]

theorem missized_code (key : DHCPOptionKey) (data : Bytes) :
    missized (key.code, data) = match key.size? with
      | some n => data.length != n
      | none => false := by
  rw [missized, DHCPOptionKey.ofCode?_code]
  rfl

/-- An option is read when its length is right; otherwise an address raises
    `socket.error`, and another option something else. -/
theorem bytes2dhcpOptionValue_cases (key : DHCPOptionKey) (data : Bytes) :
    (missized (key.code, data) = false ∧ ∃ v, bytes2dhcpOptionValue key data = .ok v) ∨
      (missized (key.code, data) = true ∧
        bytes2dhcpOptionValue key data =
          .error (if key.isAddress then .osError else .structError)) := by
  rw [missized_code]
  cases key with
  | messageType =>
      rcases unpack_number .native .B data with ⟨hlen, n, h⟩ | ⟨hlen, h⟩
      · exact Or.inl ⟨by simp [DHCPOptionKey.size?, hlen, calcsize, calcsizeFrom, Order.pad,
          Code.size], _, by rw [bytes2dhcpOptionValue, h]; rfl⟩
      · exact Or.inr ⟨bne_iff_ne.mpr hlen, by rw [bytes2dhcpOptionValue, h]; rfl⟩
  | ipAddressLeaseTime | renewalTime | rebindingTime =>
      rcases unpack_number .big .I data with ⟨hlen, n, h⟩ | ⟨hlen, h⟩
      · exact Or.inl ⟨by simp [DHCPOptionKey.size?, hlen, calcsize, calcsizeFrom, Order.pad,
          Code.size], _, by rw [bytes2dhcpOptionValue, h]; rfl⟩
      · exact Or.inr ⟨bne_iff_ne.mpr hlen, by rw [bytes2dhcpOptionValue, h]; rfl⟩
  | requestedIPAddress | subnetMask | router | dhcpServer | domainNameServer
  | broadcastAddress =>
      rcases inetNtoa_cases data with ⟨hlen, text, h⟩ | ⟨hlen, h⟩
      · exact Or.inl ⟨by simp [DHCPOptionKey.size?, hlen], _,
          by rw [bytes2dhcpOptionValue, h]; rfl⟩
      · exact Or.inr ⟨bne_iff_ne.mpr hlen, by rw [bytes2dhcpOptionValue, h]; rfl⟩
  | paramterRequestList | padding | endKey => exact Or.inl ⟨rfl, _, rfl⟩

theorem code_of_ofCode? {n : Nat} {key : DHCPOptionKey} (h : DHCPOptionKey.ofCode? n = some key) :
    key.code = n := by
  unfold DHCPOptionKey.ofCode? at h
  split at h <;> cases h <;> rfl

/-- The loop over the options: it is over at the first option of a wrong length. -/
theorem readOptions_caught_iff (data : Bytes) (options : Options) :
    Caught (readOptions data options) ↔ OptionsReadable data := by
  induction data, options using readOptions.induct with
  | case1 key length rest options hend =>
      rw [readOptions, if_pos hend, OptionsReadable, optionPieces, if_pos hend]
      simp
  | case2 key length rest options hend optionKey hkey value hvalue ih =>
      rw [readOptions, if_neg hend, hkey]
      simp only [hvalue]
      rw [ih, OptionsReadable, OptionsReadable, optionPieces.eq_1 key length rest, if_neg hend,
        List.find?_cons_of_neg]
      rcases bytes2dhcpOptionValue_cases optionKey (rest.take length.toNat) with ⟨hsize, -⟩ | ⟨-, h⟩
      · rw [code_of_ofCode? hkey] at hsize
        simp [hsize]
      · rw [h] at hvalue
        cases hvalue
  | case3 key length rest options hend optionKey hkey e he =>
      rw [readOptions, if_neg hend, hkey]
      simp only [he]
      rcases bytes2dhcpOptionValue_cases optionKey (rest.take length.toNat) with
        ⟨-, v, h⟩ | ⟨hsize, h⟩
      · rw [h] at he
        cases he
      · rw [h] at he
        cases he
        rw [code_of_ofCode? hkey] at hsize
        rw [caught_error_iff, OptionsReadable, optionPieces.eq_1 key length rest, if_neg hend,
          List.find?_cons_of_pos hsize]
        cases haddress : optionKey.isAddress <;> simp [addressPiece, hkey, haddress]
  | case4 key length rest options hend hkey ih =>
      rw [readOptions, if_neg hend, hkey]
      simp only [ih]
      rw [OptionsReadable, OptionsReadable, optionPieces.eq_1 key length rest, if_neg hend,
        List.find?_cons_of_neg]
      simp [missized, hkey]
  | case5 data options hshort =>
      rw [readOptions.eq_2 data options hshort, OptionsReadable, optionPieces.eq_2 data hshort]
      simp

-- ============================================================================
-- Packets
-- ============================================================================

theorem recvfrom_ok_iff (data : Bytes) :
    (∃ packet?, recvfrom data = .ok packet?) ↔ Caught (DHCPPacket.fromBytes data) := by
  unfold recvfrom Caught
  cases DHCPPacket.fromBytes data with
  | ok packet => simp
  | error e => cases e <;> simp

theorem unpack_header (data : Bytes) :
    unpackFrom .native [.I, .H, .H] data 4 =
      if 12 ≤ data.length then
        .ok [numberAt data 4 4, numberAt data 8 2, numberAt data 10 2]
      else .error .structError := by
  rw [unpackFrom_eq_of_pos (by decide)]
  simp [calcsize, calcsizeFrom, valuesFrom, Order.pad, Code.size, Code.norm, Order.ofBytes,
    ofLittle_take_drop, List.drop_drop]

theorem unpack_cookie (data : Bytes) :
    unpackFrom .native [.I] data 236 =
      if 240 ≤ data.length then .ok [numberAt data 236 4] else .error .structError := by
  rw [unpackFrom_eq_of_pos (by decide)]
  simp [calcsize, calcsizeFrom, valuesFrom, Order.pad, Code.size, Code.norm, Order.ofBytes,
    ofLittle_take_drop, List.drop_drop]

/-- An address of the header is read, or the datagram is cut off before its end. -/
theorem caught_address_iff {α : Type} (data : Bytes) (i : Nat) (f : Str → Except Exn α) (P : Prop)
    (h : i + 4 ≤ data.length → ∀ text, Caught (f text) ↔ P) :
    Caught (inetNtoa (slice data i (i + 4)) >>= f) ↔ data.length < i + 4 ∨ P := by
  have hsize := length_slice data i (i + 4)
  rw [caught_bind_iff]
  rcases inetNtoa_cases (slice data i (i + 4)) with ⟨hlen, text, htext⟩ | ⟨hlen, herror⟩
  · rw [htext]
    simp only [reduceCtorEq, false_or, Except.ok.injEq, exists_eq_left', h (by omega) text]
    exact ⟨Or.inr, fun hor => hor.resolve_left (by omega)⟩
  · rw [herror]
    exact ⟨fun _ => Or.inl (by omega), fun _ => Or.inl rfl⟩

theorem caught_fromBytes_iff (data : Bytes) :
    Caught (DHCPPacket.fromBytes data) ↔ 12 ≤ data.length ∧
      (data.length < 28 ∨ (240 ≤ data.length ∧ OptionsReadable (data.drop 240))) := by
  have hsize := length_slice data 0 4
  unfold DHCPPacket.fromBytes
  split
  · next op htype hlen hops hfour =>
      rw [unpack_header]
      by_cases hheader : 12 ≤ data.length
      · rw [if_pos hheader, except_ok_bind]
        rw [and_iff_right hheader]
        -- each address of the header, then the cookie, then the options
        rw [caught_address_iff data 12 _ _ fun _ client => caught_address_iff data 16 _ _
          fun _ your => caught_address_iff data 20 _ _ fun _ server => caught_address_iff data 24 _
          (240 ≤ data.length ∧ OptionsReadable (data.drop 240)) fun _ gateway => ?_]
        · simp only [← or_assoc]
          exact or_congr_left (by omega)
        rw [unpack_cookie]
        by_cases hcookie : 240 ≤ data.length
        · rw [if_pos hcookie, except_ok_bind, and_iff_right hcookie,
            ← readOptions_caught_iff _ Dict.empty, caught_bind_iff]
          simp [Caught, or_comm]
        · rw [if_neg hcookie]
          simp [hcookie, caught_error_iff, bind, Except.bind]
      · rw [if_neg hheader]
        simp [hheader, caught_error_iff, bind, Except.bind]
  · next hfour =>
      refine ⟨fun h => absurd ((caught_error_iff _).mp h) (by decide), fun h => ?_⟩
      obtain ⟨op, htype, hlen, hops, hslice⟩ := List.length_eq_four.mp
        (show (slice data 0 4).length = 4 by omega)
      exact absurd hslice (hfour op htype hlen hops)

/-- The datagrams after which the loop goes on: those cut off inside the addresses,
    which are dropped, and those that reach the options, unless one is missized before
    an address is. -/
theorem receives_iff (data : Bytes) :
    (∃ packet?, recvfrom data = .ok packet?) ↔
      (12 ≤ data.length ∧ data.length < 28) ∨
        (240 ≤ data.length ∧ OptionsReadable (data.drop 240)) := by
  have hlong : 240 ≤ data.length → 12 ≤ data.length := by omega
  rw [recvfrom_ok_iff, caught_fromBytes_iff, and_or_left, ← and_assoc (c := OptionsReadable _),
    and_iff_right_of_imp hlong]

/-- An exception of `recvfrom` ends the main loop. -/
theorem stops_of_recvfrom {data : Bytes} {e : Exn} (h : recvfrom data = .error e) {s : Server}
    (hrun : s.stopped = none) (now : Int) :
    step s (.datagram data now) = some { s with stopped := some e } := by
  have hturn : iteration data now s.state = .error e s.state :=
    bind_error_iff.mpr (Or.inl (by rw [lift, reads, h]))
  rw [step, if_pos hrun, hturn]
  rfl

end Dhcp
end NetworkingFinal
