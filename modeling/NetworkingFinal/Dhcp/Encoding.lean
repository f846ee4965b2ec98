/-
  NetworkingFinal.Dhcp.Encoding

  Which packets encode.  `__bytes__` needs numbers in their ranges, addresses that
  `inet_aton` reads, and options that fit their length byte; what `from_bytes` makes has
  all of these, and a reply puts addresses of the configuration into it.

  - `encodes_iff`: the packets that encode, field by field.
  - `encodable_of_fromBytes`: a packet that was decoded encodes.
-/
import NetworkingFinal.Dhcp.Wire

namespace NetworkingFinal
namespace Dhcp

open Py Py.Struct

/-- `inet_aton` reads the text. -/
def ReadableAddress (text : Str) : Prop := ∃ packed, inetAton text = .ok packed

/-- The option is left out by the encoder, or it encodes and fits its length byte. -/
def Writable (key : DHCPOptionKey) (value : DHCPOptionValue) : Prop :=
  key ≠ .endKey ∧ key ≠ .padding →
    ∃ data, dhcpOptionValue2bytes key value = .ok data ∧ data.length < 256

/-- Every field of the packet can be encoded. -/
structure DHCPPacket.Encodable (p : DHCPPacket) : Prop where
  head : ∀ n ∈ [p.op, p.htype, p.hlen, p.hops], n < 256
  ids : ∃ data, pack .native [.I, .H, .H] [p.xid, p.secs, p.flags] = .ok data
  client : ReadableAddress p.clientIPAddress
  your : ReadableAddress p.yourIPAddress
  server : ReadableAddress p.serverIPAddress
  gateway : ReadableAddress p.gatewayIPAddress
  magic : ∃ data, pack .native [.I] [p.magicCookie] = .ok data
  options : ∀ key value, p.options.get? key = some value → Writable key value

-- ============================================================================
-- The encoder
-- ============================================================================

theorem option_head_ok_iff (key : DHCPOptionKey) (data : Bytes) :
    (∃ head, pack .native [.B, .B] [key.code, data.length] = .ok head) ↔ data.length < 256 := by
  constructor
  · rintro ⟨head, hhead⟩
    cases fits_of_pack hhead with
    | cons _ hrest => cases hrest with
      | cons hlen _ => exact hlen
  · intro hlen
    exact ⟨_, option_head key hlen⟩

theorem writeOptions_ok_iff (entries : List (DHCPOptionKey × DHCPOptionValue)) :
    (∃ data, writeOptions entries = .ok data) ↔ ∀ entry ∈ entries, Writable entry.1 entry.2 := by
  induction entries with
  | nil => exact ⟨fun _ _ hentry => absurd hentry List.not_mem_nil, fun _ => ⟨[], rfl⟩⟩
  | cons entry entries ih =>
      obtain ⟨key, value⟩ := entry
      rw [writeOptions, List.forall_mem_cons, ← ih]
      by_cases hmark : key ≠ .endKey ∧ key ≠ .padding
      · rw [if_pos hmark]
        constructor
        · rintro ⟨data, hdata⟩
          obtain ⟨bytes, hbytes, hdata⟩ := except_bind_ok_iff.mp hdata
          obtain ⟨head, hhead, hdata⟩ := except_bind_ok_iff.mp hdata
          obtain ⟨rest, hrest, -⟩ := except_bind_ok_iff.mp hdata
          have hlen := (option_head_ok_iff key bytes).mp ⟨head, hhead⟩
          exact ⟨fun _ => ⟨bytes, hbytes, hlen⟩, rest, hrest⟩
        · rintro ⟨hwritable, rest, hrest⟩
          obtain ⟨bytes, hbytes, hlen⟩ := hwritable hmark
          exact ⟨_, by rw [hbytes, except_ok_bind, option_head key hlen, except_ok_bind, hrest,
            except_ok_bind, except_pure]⟩
      · rw [if_neg hmark]
        exact ⟨fun h => ⟨fun hne => absurd hne hmark, h⟩, fun h => h.2⟩

/-- The packets that encode. -/
theorem encodes_iff (p : DHCPPacket) : (∃ data, p.toBytes = .ok data) ↔ p.Encodable := by
  have hoptions : (∃ data, writeOptions p.options.entries = .ok data) ↔
      ∀ key value, p.options.get? key = some value → Writable key value := by
    rw [writeOptions_ok_iff]
    simp only [Prod.forall, Dict.mem_entries_iff]
  constructor
  · rintro ⟨data, hdata⟩
    obtain ⟨head, hhead, hdata⟩ := except_bind_ok_iff.mp hdata
    obtain ⟨ids, hids, hdata⟩ := except_bind_ok_iff.mp hdata
    obtain ⟨client, hclient, hdata⟩ := except_bind_ok_iff.mp hdata
    obtain ⟨your, hyour, hdata⟩ := except_bind_ok_iff.mp hdata
    obtain ⟨server, hserver, hdata⟩ := except_bind_ok_iff.mp hdata
    obtain ⟨gateway, hgateway, hdata⟩ := except_bind_ok_iff.mp hdata
    obtain ⟨magic, hmagic, hdata⟩ := except_bind_ok_iff.mp hdata
    obtain ⟨options, hwritten, -⟩ := except_bind_ok_iff.mp hdata
    exact ⟨(bytesOf_ok_iff _).mp ⟨_, hhead⟩, ⟨_, hids⟩, ⟨_, hclient⟩, ⟨_, hyour⟩, ⟨_, hserver⟩,
      ⟨_, hgateway⟩, ⟨_, hmagic⟩, hoptions.mp ⟨_, hwritten⟩⟩
  · intro h
    obtain ⟨head, hhead⟩ := (bytesOf_ok_iff _).mpr h.head
    obtain ⟨ids, hids⟩ := h.ids
    obtain ⟨client, hclient⟩ := h.client
    obtain ⟨your, hyour⟩ := h.your
    obtain ⟨server, hserver⟩ := h.server
    obtain ⟨gateway, hgateway⟩ := h.gateway
    obtain ⟨magic, hmagic⟩ := h.magic
    obtain ⟨options, hwritten⟩ := hoptions.mpr h.options
    have hmark := @option_head .endKey [] (by decide)
    rw [List.length_nil] at hmark
    simp only [DHCPPacket.toBytes, hhead, hids, hclient, hyour, hserver, hgateway, hmagic, hwritten,
      hmark, except_ok_bind, except_pure]
    exact ⟨_, rfl⟩

-- ============================================================================
-- Decoded packets
-- ============================================================================

theorem lt_of_unpack {data : Bytes} {n : Nat} (h : unpack .big [.I] data = .ok [n]) :
    n < 2 ^ 32 := by
  unfold unpack at h
  split at h
  · cases fits_of_unpackFrom h with
    | cons hn _ => exact hn
  · cases h

/-- The set of a parameter list encodes, the unknown ones left out. -/
theorem parameters_ok (arr : List DHCPParameterRequest) :
    ∃ data, dhcpOptionValue2bytes .paramterRequestList
        (.parameters (DHCPParameterRequest.listOfSet arr)) = .ok data ∧ data.length < 256 := by
  have hlt : ∀ n ∈ ((DHCPParameterRequest.listOfSet arr).map DHCPParameterRequest.code).filter
      (· ≠ 0), n < 256 := by
    intro n hn
    obtain ⟨r, -, rfl⟩ := List.mem_map.mp (List.mem_filter.mp hn).1
    exact r.code_lt
  refine ⟨_, bytesOf_of_lt hlt, ?_⟩
  have hlen : (DHCPParameterRequest.listOfSet arr).length ≤ 5 := by
    unfold DHCPParameterRequest.listOfSet
    dsimp only
    split
    · exact List.length_filter_le _ _
    · exact List.length_filter_le _ _
  have hfilter := List.length_filter_le (· ≠ 0)
    ((DHCPParameterRequest.listOfSet arr).map DHCPParameterRequest.code)
  rw [List.length_map] at hfilter ⊢
  omega

theorem writable_of_ofKind {key : DHCPOptionKey} {value : DHCPOptionValue}
    (hkind : OfKind key value) (hshort : Short value) : Writable key value := by
  intro _
  obtain ⟨-, data, hdata, hlen, -⟩ := read_written hkind hshort
  exact ⟨data, hdata, hlen⟩

/-- An option that was decoded encodes. -/
theorem writable_of_bytes {key : DHCPOptionKey} {data : Bytes} {value : DHCPOptionValue}
    (h : bytes2dhcpOptionValue key data = .ok value) : Writable key value := by
  cases key with
  | messageType =>
      obtain ⟨ns, -, h⟩ := except_bind_ok_iff.mp h
      split at h
      · cases h
        exact writable_of_ofKind trivial trivial
      · cases h
  | ipAddressLeaseTime | renewalTime | rebindingTime =>
      obtain ⟨ns, hns, h⟩ := except_bind_ok_iff.mp h
      split at h
      · next n =>
          cases h
          have hn := lt_of_unpack hns
          have hrange : (0 : Int) ≤ n ∧ (n : Int) < 2 ^ 32 := by omega
          exact writable_of_ofKind hrange trivial
      · cases h
  | requestedIPAddress | subnetMask | router | dhcpServer | domainNameServer
  | broadcastAddress =>
      obtain ⟨text, htext, h⟩ := except_bind_ok_iff.mp h
      cases h
      have hquad : DottedQuad text := ⟨data, htext⟩
      exact writable_of_ofKind hquad trivial
  | paramterRequestList =>
      cases h
      exact fun _ => parameters_ok _
  | padding => exact fun hmark => absurd rfl hmark.2
  | endKey => exact fun hmark => absurd rfl hmark.1

theorem writable_of_readOptions {data : Bytes} {options options' : Options}
    (h : readOptions data options = .ok options')
    (hold : ∀ key value, options.get? key = some value → Writable key value) :
    ∀ key value, options'.get? key = some value → Writable key value := by
  induction data, options using readOptions.induct with
  | case1 key length rest options hend =>
      rw [readOptions, if_pos hend] at h
      cases h
      exact hold
  | case2 key length rest options hend optionKey hkey value hvalue ih =>
      rw [readOptions, if_neg hend, hkey] at h
      simp only [hvalue] at h
      refine ih h fun k v hget => ?_
      rw [Dict.get?_set] at hget
      split at hget
      · next heq =>
          cases hget
          exact heq ▸ writable_of_bytes hvalue
      · exact hold k v hget
  | case3 key length rest options hend optionKey hkey e he =>
      rw [readOptions, if_neg hend, hkey] at h
      simp only [he] at h
      cases h
  | case4 key length rest options hend hkey ih =>
      rw [readOptions, if_neg hend, hkey] at h
      exact ih h hold
  | case5 data options hshort =>
      rw [readOptions.eq_2 data options hshort] at h
      cases h
      exact hold

theorem readable_of_dottedQuad {text : Str} (h : DottedQuad text) : ReadableAddress text := by
  obtain ⟨packed, hpacked⟩ := h
  exact ⟨packed, inetAton_inetNtoa hpacked⟩

/-- A packet that was decoded encodes. -/
theorem encodable_of_fromBytes {data : Bytes} {p : DHCPPacket}
    (h : DHCPPacket.fromBytes data = .ok p) : p.Encodable := by
  unfold DHCPPacket.fromBytes at h
  split at h
  · next op htype hlen hops _ =>
      obtain ⟨ids, hids, h⟩ := except_bind_ok_iff.mp h
      split at h
      · next xid secs flags =>
          obtain ⟨client, hclient, h⟩ := except_bind_ok_iff.mp h
          obtain ⟨your, hyour, h⟩ := except_bind_ok_iff.mp h
          obtain ⟨server, hserver, h⟩ := except_bind_ok_iff.mp h
          obtain ⟨gateway, hgateway, h⟩ := except_bind_ok_iff.mp h
          obtain ⟨magic, hmagic, h⟩ := except_bind_ok_iff.mp h
          split at h
          · next magicCookie =>
              obtain ⟨options, hoptions, h⟩ := except_bind_ok_iff.mp h
              cases h
              have hhead : ∀ n ∈ [op.toNat, htype.toNat, hlen.toNat, hops.toNat], n < 256 := by
                simp [op.toNat_lt, htype.toNat_lt, hlen.toNat_lt, hops.toNat_lt]
              have hempty : ∀ key value, (Dict.empty : Options).get? key = some value →
                  Writable key value := fun _ _ hget => by cases hget
              exact ⟨hhead, pack_of_fits _ (fits_of_unpackFrom hids),
                readable_of_dottedQuad ⟨_, hclient⟩, readable_of_dottedQuad ⟨_, hyour⟩,
                readable_of_dottedQuad ⟨_, hserver⟩, readable_of_dottedQuad ⟨_, hgateway⟩,
                pack_of_fits _ (fits_of_unpackFrom hmagic),
                writable_of_readOptions hoptions hempty⟩
          · cases h
      · cases h
  · cases h

theorem writable_address_iff {key : DHCPOptionKey} {text : Str}
    (hkey : key ∈ [.domainNameServer, DHCPOptionKey.broadcastAddress]) :
    Writable key (.str text) ↔ ReadableAddress text := by
  simp only [List.mem_cons, List.not_mem_nil, or_false] at hkey
  constructor
  · intro h
    rcases hkey with rfl | rfl
    · obtain ⟨data, hdata, -⟩ := h (by decide)
      exact ⟨data, hdata⟩
    · obtain ⟨data, hdata, -⟩ := h (by decide)
      exact ⟨data, hdata⟩
  · rintro ⟨data, hdata⟩ -
    have hlen : data.length < 256 := by
      rw [length_of_inetAton hdata]
      decide
    rcases hkey with rfl | rfl
    · exact ⟨data, hdata, hlen⟩
    · exact ⟨data, hdata, hlen⟩

end Dhcp
end NetworkingFinal
