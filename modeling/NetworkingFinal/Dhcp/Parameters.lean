/-
  NetworkingFinal.Dhcp.Parameters

  The configuration options of an Offer and of the ACK that follows it.  All three
  handlers make them with `create_additional_options` from the packet they answer;
  `handle_discover` has dropped the options of that packet by then, and with them the
  parameter request list.  The ACK also keeps the options of the Request.

  - `get?_createAdditionalOptions`: the options made from a packet.
  - `offer_ack_agree_iff`: when the Offer and the ACK carry what was asked for.
-/
import NetworkingFinal.Dhcp.Offers

namespace NetworkingFinal
namespace Dhcp

open Py Py.Prog Database

variable {d : Database} {now : Int} {p q : DHCPPacket} {s t : State}

-- ============================================================================
-- What the database has for a client
-- ============================================================================

/-- The parameters the client asks for. -/
def asked (q : DHCPPacket) : List DHCPParameterRequest :=
  match q.options.get? .paramterRequestList with
  | some (.parameters items) => items
  | _ => []

/-- A configured address; an empty one counts as none. -/
def configured : Option Str → Option DHCPOptionValue
  | some (c :: cs) => some (.str (c :: cs))
  | _ => none

def configurationOptions : List DHCPOptionKey :=
  [.dhcpServer, .ipAddressLeaseTime, .renewalTime, .rebindingTime, .subnetMask, .router,
    .domainNameServer, .broadcastAddress]

/-- The configuration options for a client: those of every reply, and the addresses that it asks
    for and the database has. -/
def expected (d : Database) (q : DHCPPacket) : DHCPOptionKey → Option DHCPOptionValue
  | .dhcpServer => some (.str d.serverAddress)
  | .ipAddressLeaseTime => some (.int d.leaseTime)
  | .renewalTime => some (.int d.renewalTime)
  | .rebindingTime => some (.int d.rebindingTime)
  | .subnetMask => some (.str d.subnetMask)
  | .router => some (.str d.router)
  | .domainNameServer => if .domainNameServer ∈ asked q then configured d.dns else none
  | .broadcastAddress => if .broadcastAddress ∈ asked q then configured d.broadcastAddress else none
  | _ => none

theorem get?_addAsked (isAsked : Bool) (key key' : DHCPOptionKey) (address : Option Str)
    (options : Options) :
    (addAsked isAsked key address options).get? key' =
      (if key' = key ∧ isAsked = true then configured address else none).or
        (options.get? key') := by
  unfold addAsked configured
  split
  · rw [Dict.get?_set]
    by_cases hkey : key' = key
    · simp [hkey]
    · simp [hkey]
  · next hnot =>
      split
      · next h =>
          split
          · next c cs => exact absurd rfl (hnot c cs h.2)
          · rfl
      · rfl

theorem asked_of_list {items : List DHCPParameterRequest}
    (h : q.options.get? .paramterRequestList = some (.parameters items)) : asked q = items := by
  rw [asked, h]

theorem asked_of_none
    (h : ∀ items, q.options.get? .paramterRequestList ≠ some (.parameters items)) :
    asked q = [] := by
  unfold asked
  split
  · next items hitems => exact absurd hitems (h items)
  · rfl

/-- The options that a reply to the packet is given. -/
theorem get?_createAdditionalOptions (d : Database) (q : DHCPPacket) (key : DHCPOptionKey) :
    (createAdditionalOptions d q).get? key = expected d q key := by
  unfold createAdditionalOptions
  dsimp only
  split
  · next items hitems =>
      rw [get?_addAsked, get?_addAsked]
      cases key <;> simp [expected, asked_of_list hitems, Dict.get?_set]
  · next hno =>
      cases key <;> simp [expected, asked_of_none hno, Dict.get?_set]

/-- What is expected depends on the parameter request list of the packet only. -/
theorem expected_congr (h : asked q = asked p) (key : DHCPOptionKey) :
    expected d q key = expected d p key := by
  cases key <;> simp only [expected, h]

/-- What is expected does not depend on the leases. -/
theorem expected_withLeases (leases : Leases) (key : DHCPOptionKey) :
    expected (d.withLeases leases) q key = expected d q key := by
  cases key <;> rfl

-- ============================================================================
-- The options of the replies
-- ============================================================================

/-- The Offer has the options for a client that asks for nothing. -/
theorem get?_offerPacket {key : DHCPOptionKey} (hkey : key ∈ configurationOptions)
    (ip : Str) : (offerPacket d p ip).options.get? key =
      expected d { p with options := Dict.empty } key := by
  have hne : key ≠ .messageType := by
    rintro rfl
    exact absurd hkey (by decide)
  rw [offerPacket, DHCPPacket.addOptions, Dict.get?_update, get?_createAdditionalOptions,
    Dict.get?_set_of_ne hne, Dict.get?_empty, Option.or_none]
  exact expected_congr rfl key

/-- The ACK has the options the client asks for, and keeps those of the Request besides. -/
theorem get?_ackPacket {key : DHCPOptionKey} (hkey : key ∈ configurationOptions)
    (client your : Str) : (ackPacket d q client your).options.get? key =
      (expected d q key).or (q.options.get? key) := by
  have hne : key ≠ .messageType := by
    rintro rfl
    exact absurd hkey (by decide)
  rw [ackPacket, DHCPPacket.addOptions, Dict.get?_update, get?_createAdditionalOptions,
    Dict.get?_set_of_ne hne]
  congr 1
  apply expected_congr
  rw [asked, asked, Dict.get?_set_of_ne (by decide)]

-- ============================================================================
-- The packets sent
-- ============================================================================

/-- The handler broadcasts the packet. -/
def Sends (x : Prog State Unit) (s : State) (packet : DHCPPacket) : Prop :=
  (final (x s)).sent = s.sent ++ [packet]

instance (x : Prog State Unit) (s : State) (packet : DHCPPacket) : Decidable (Sends x s packet) :=
  inferInstanceAs (Decidable (_ = _))

theorem not_sends_of_sent {x : Prog State Unit} (h : (final (x s)).sent = s.sent) :
    ¬ Sends x s p := by
  intro hsends
  rw [Sends, h] at hsends
  exact absurd (List.self_eq_append_right.mp hsends) (List.cons_ne_nil _ _)

/-- A handler that ends with a broadcast sends that packet or none. -/
theorem eq_of_sends {x : Prog State Unit} {packet : DHCPPacket} (h : Sends x s p)
    (hsent : (final (x s)).sent = s.sent ++ broadcasted packet) : p = packet := by
  rw [Sends, hsent, List.append_cancel_left_eq] at h
  exact mem_broadcasted (h ▸ List.mem_singleton.mpr rfl)

/-- What `handle_discover` sends is an Offer, made with the configuration it found. -/
theorem offer_of_sends (h : Sends (handleDiscover now p) s q) :
    ∃ leases ip, q = offerPacket (s.database.withLeases leases) p ip := by
  have hwp : wp (handleDiscover now p)
      (fun _ t => t.sent = s.sent ∨
        ∃ leases ip, t.sent = s.sent ++
          broadcasted (offerPacket (s.database.withLeases leases) p ip))
      (fun _ t => t.sent = s.sent ∨
        ∃ leases ip, t.sent = s.sent ++
          broadcasted (offerPacket (s.database.withLeases leases) p ip)) s := by
    rw [handleDiscover, wp_bind, wp_lift]
    refine ⟨fun requested _ => ?_, fun _ _ => Or.inl rfl⟩
    rw [wp_bind]
    refine wp_mono wp_getIp (fun r t ht => ?_) fun _ t ht => Or.inl ht.2
    split
    · exact Or.inl ht.1.2
    · exact Or.inl ht.1.2
    · next ip _ =>
        rw [wp_bind, wp_get]
        refine wp_broadcast fun u _ hsent => Or.inr ?_
        obtain ⟨leases, hleases⟩ := withLeases_of_cleaned ht.1.1
        exact ⟨leases, ip, by rw [hsent, ht.1.2, hleases]⟩
  rcases final_of_wp hwp with hsame | ⟨leases, ip, hsent⟩
  · exact absurd h (not_sends_of_sent hsame)
  · exact ⟨leases, ip, eq_of_sends h hsent⟩

/-- What `handle_renewal_request` sends is an ACK. -/
theorem ack_of_grant {client your : Str} (h : Sends (grant now q client your) t p) :
    p = ackPacket t.database q client your := by
  apply eq_of_sends h
  rw [grant_apply, final_broadcast]
  rfl

/-- An ACK of either handler of Requests. -/
def SendsAck (now : Int) (q : DHCPPacket) (t : State) (a : DHCPPacket) : Prop :=
  Sends (handleRequest now q) t a ∧ a.HasType .ack ∨ Sends (handleRenewalRequest now q) t a

theorem ack_of_sendsAck {a : DHCPPacket} (h : SendsAck now q t a) :
    ∃ client your, a = ackPacket t.database q client your := by
  rcases h with ⟨h, htype⟩ | h
  · cases hvalid : handleRequestValidation t.database q with
    | error e =>
        refine absurd h (not_sends_of_sent ?_)
        rw [handleRequest, bind_of_ok (get_apply t), hvalid]
        rfl
    | ok valid =>
        cases valid with
        | none =>
            rw [Sends, handleRequest_of_refused hvalid] at h
            have hnak := eq_of_sends h (congrArg State.sent (final_broadcast _ _))
            rw [hnak] at htype
            cases htype.unique (hasType_nakPacket _ _)
        | some ip =>
            rw [Sends, handleRequest_of_accepted hvalid] at h
            exact ⟨_, _, ack_of_grant h⟩
  · exact ⟨_, _, ack_of_grant h⟩

-- ============================================================================
-- The Offer against the ACK
-- ============================================================================

/-- Both replies carry the configuration options that the client asks for and the database has,
    hence the same ones. -/
def Agree (d : Database) (p o a : DHCPPacket) : Prop :=
  ∀ key ∈ configurationOptions,
    o.options.get? key = expected d p key ∧ a.options.get? key = expected d p key

/-- The client asks for no address that the database has, and its Request has no option of that
    name itself. -/
def AsksNothing (d : Database) (q : DHCPPacket) : Prop :=
  ∀ key ∈ [DHCPOptionKey.domainNameServer, .broadcastAddress],
    expected d q key = none ∧ q.options.get? key = none

instance (d : Database) (q : DHCPPacket) : Decidable (AsksNothing d q) :=
  inferInstanceAs (Decidable (∀ key ∈ [DHCPOptionKey.domainNameServer, .broadcastAddress], _))

/-- The Offer and the ACK to packets with the same parameter request list agree exactly if the
    list asks for nothing that the database has, and the Request has no such option itself. -/
theorem offer_ack_agree_iff {now' : Int} {o a : DHCPPacket} (leases : Leases)
    (hconfig : t.database = s.database.withLeases leases)
    (hlist : q.options.get? .paramterRequestList = p.options.get? .paramterRequestList)
    (hoffer : Sends (handleDiscover now p) s o) (hack : SendsAck now' q t a) :
    Agree s.database p o a ↔ AsksNothing s.database q := by
  obtain ⟨leases', ip, rfl⟩ := offer_of_sends hoffer
  obtain ⟨client, your, rfl⟩ := ack_of_sendsAck hack
  have hasked : asked p = asked q := by rw [asked, asked, hlist]
  have hplain : ∀ key, expected s.database { p with options := Dict.empty } key =
      if key ∈ [DHCPOptionKey.domainNameServer, .broadcastAddress] then none
      else expected s.database q key := by
    intro key
    cases key <;> rfl
  have hreplies : ∀ key ∈ configurationOptions,
      (offerPacket (s.database.withLeases leases') p ip).options.get? key =
          expected s.database { p with options := Dict.empty } key ∧
        (ackPacket t.database q client your).options.get? key =
          (expected s.database q key).or (q.options.get? key) := by
    intro key hkey
    rw [get?_offerPacket hkey, get?_ackPacket hkey, hconfig, expected_withLeases,
      expected_withLeases]
    exact ⟨rfl, rfl⟩
  constructor
  · intro hagree key hkey
    have hmem : key ∈ configurationOptions := by
      simp only [List.mem_cons, List.not_mem_nil, or_false] at hkey
      rcases hkey with rfl | rfl <;> decide
    obtain ⟨ho, ha⟩ := hagree key hmem
    obtain ⟨ho', ha'⟩ := hreplies key hmem
    rw [ho', hplain, if_pos hkey, expected_congr hasked] at ho
    rw [ha', expected_congr hasked, ← ho, Option.none_or] at ha
    exact ⟨ho.symm, ha⟩
  · intro hnothing key hmem
    obtain ⟨ho', ha'⟩ := hreplies key hmem
    rw [ho', ha', hplain, expected_congr hasked]
    by_cases hkey : key ∈ [DHCPOptionKey.domainNameServer, .broadcastAddress]
    · obtain ⟨hnone, hown⟩ := hnothing key hkey
      rw [if_pos hkey, hnone, hown]
      exact ⟨rfl, rfl⟩
    · rw [if_neg hkey]
      refine ⟨rfl, ?_⟩
      simp only [configurationOptions, List.mem_cons, List.not_mem_nil, or_false] at hmem hkey
      rcases hmem with rfl | rfl | rfl | rfl | rfl | rfl | rfl | rfl
      all_goals first | rfl | simp at hkey

/-- The packet with a parameter request list. -/
def DHCPPacket.listing (items : List DHCPParameterRequest) (packet : DHCPPacket) : DHCPPacket :=
  { packet with options := packet.options.set .paramterRequestList (.parameters items) }

/-- A client that asks for the mask and the router, which every reply carries. -/
theorem offer_ack_agree_iff_maskRouter :
    Agree {} (discoverNew.listing [.subnetMask, .router])
      (offerPacket {} (discoverNew.listing [.subnetMask, .router]) "192.168.100.10".toList)
      (ackPacket {} ((requestOf "192.168.100.10").listing [.subnetMask, .router])
        "0.0.0.0".toList "192.168.100.10".toList) := by
  have hsent : Sends (handleDiscover 0 (discoverNew.listing [.subnetMask, .router]))
      (Server.init {}).state
      (offerPacket {} (discoverNew.listing [.subnetMask, .router]) "192.168.100.10".toList) := by
    decide +kernel
  have hack : SendsAck 1 ((requestOf "192.168.100.10").listing [.subnetMask, .router])
      (Server.init {}).state
      (ackPacket {} ((requestOf "192.168.100.10").listing [.subnetMask, .router])
        "0.0.0.0".toList "192.168.100.10".toList) :=
    Or.inl ⟨by decide +kernel, hasType_ackPacket _ _ _ _⟩
  exact (offer_ack_agree_iff Dict.empty rfl (by decide) hsent hack).mpr (by decide +kernel)

/-- A Discover that asks for the DNS server. -/
def discoverDns : DHCPPacket := discoverNew.listing [.domainNameServer]

/-- The default configuration has a DNS server; only the ACK tells the client. -/
theorem not_offer_ack_agree :
    ¬ ∀ (now now' : Int) (s t : State) (p q o a : DHCPPacket) (leases : Leases),
      t.database = s.database.withLeases leases →
      q.options.get? .paramterRequestList = p.options.get? .paramterRequestList →
      Sends (handleDiscover now p) s o → SendsAck now' q t a → Agree s.database p o a := by
  intro hall
  have hagree := hall 0 1 (Server.init {}).state (Server.init {}).state discoverDns requestTen
    (offerPacket {} discoverDns "192.168.100.10".toList)
    (ackPacket {} requestTen "0.0.0.0".toList "192.168.100.10".toList) Dict.empty rfl
    (by decide) (by decide +kernel) (Or.inl ⟨by decide +kernel, hasType_ackPacket _ _ _ _⟩)
  have hdns := (hagree .domainNameServer (by decide)).1
  exact absurd hdns (by decide +kernel)

end Dhcp
end NetworkingFinal
