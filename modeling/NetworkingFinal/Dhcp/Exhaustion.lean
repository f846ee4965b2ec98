/-
  NetworkingFinal.Dhcp.Exhaustion

  When `get_ip` gives up.  It scans the pool, drops one lease that ran out (the first
  of the table, whatever its address) and scans the pool once more.

  - `firstAvailable_eq`: the scan finds nothing exactly if nothing is available.
  - `exhausted_only_iff`: the one way in which a lease of the pool that ran out is not
    found.
-/
import NetworkingFinal.Dhcp.Pool

namespace NetworkingFinal
namespace Dhcp

open Py Py.Prog Database

variable {d : Database} {pre : Str} {now : Int}

-- ============================================================================
-- The scan
-- ============================================================================

/-- The test of an address, with the prefix of the server. -/
theorem isAvailable_spec (hpre : d.getPrefix = .ok pre) (ip : Str) :
    ∃ b, d.isAvailable ip (some pre) = .ok b ∧ (b = true ↔ d.Available ip) := by
  have htotal : ∃ b, d.isAvailable ip (some pre) = .ok b := by
    cases pre with
    | nil => exact absurd rfl (getPrefix_ne_nil hpre)
    | cons c cs =>
        simp only [isAvailable, except_pure, except_ok_bind]
        split
        · exact ⟨_, rfl⟩
        · exact ⟨_, rfl⟩
  obtain ⟨b, hb⟩ := htotal
  refine ⟨b, hb, fun htrue => ?_, fun havailable => ?_⟩
  · exact available_of_isAvailable hpre (htrue ▸ hb)
  · have hyes := isAvailable_of_available havailable
    rw [isAvailable_eq hpre, hb, Except.ok.injEq] at hyes
    exact hyes

/-- The scan ends without an exception, and finds nothing exactly if nothing is
    available. -/
theorem firstAvailable_spec (hpre : d.getPrefix = .ok pre) (is : List Int) :
    ∃ r, d.firstAvailable pre is = .ok r ∧
      (r = none ↔ ∀ i ∈ is, ¬ d.Available (pre ++ str i)) := by
  induction is with
  | nil => exact ⟨none, rfl, by simp⟩
  | cons i is ih =>
      obtain ⟨b, hb, hiff⟩ := isAvailable_spec hpre (pre ++ str i)
      rw [firstAvailable, hb, except_ok_bind, List.forall_mem_cons, ← hiff]
      cases b with
      | true => exact ⟨_, rfl, by simp⟩
      | false =>
          obtain ⟨r, hr, hnone⟩ := ih
          exact ⟨r, hr, by rw [hnone]; simp⟩

/-- An address of the pool is available unless it is leased. -/
theorem PoolAddress.available_iff {ip : Str} (h : PoolAddress d ip) :
    d.Available ip ↔ ip ∉ d.ipAddressLeases.keys := by
  obtain ⟨pre, i, hpre, -, -, rfl, hrouter, hserver⟩ := h
  refine ⟨fun havailable => havailable.free, fun hfree => ⟨⟨pre, hpre, ?_⟩, hrouter, hserver,
    hfree⟩⟩
  rw [List.isPrefixOf_iff_prefix]
  exact List.prefix_append _ _

/-- The scan of the pool finds nothing exactly if all its addresses are leased. -/
theorem firstAvailable_pool (hpre : d.getPrefix = .ok pre) :
    ∃ r, d.firstAvailable pre d.pool = .ok r ∧
      (r = none ↔ ∀ ip, PoolAddress d ip → ip ∈ d.ipAddressLeases.keys) := by
  obtain ⟨r, hr, hnone⟩ := firstAvailable_spec hpre d.pool
  refine ⟨r, hr, hnone.trans ⟨fun hall ip hpool => ?_, fun hall i hi havailable => ?_⟩⟩
  · have havailable := hpool.available_iff
    obtain ⟨pre', i, hpre', hlo, hhi, rfl, -, -⟩ := hpool
    rw [hpre, Except.ok.injEq] at hpre'
    subst hpre'
    have hi : i ∈ d.pool := by
      rw [pool, mem_range_iff]
      omega
    by_contra hfree
    exact hall i hi (havailable.mpr hfree)
  · have hpool := poolAddress_of_fromPool ⟨havailable, pre, i, hi, hpre, rfl⟩
    exact havailable.free (hall _ hpool)

-- ============================================================================
-- Giving up
-- ============================================================================

/-- The address has a lease that did not run out. -/
def Unexpired (now : Int) (d : Database) (ip : Str) : Prop :=
  ∃ lease, d.ipAddressLeases.get? ip = some lease ∧ now ≤ lease.expiredTime

/-- What the result of `get_ip` says of the table it was called on and of the one it leaves:
    nothing, when all of the pool has leases that did not run out, and else an address that is
    available. -/
def Answers (now : Int) (d : Database) (r : Option Str) (t : State) : Prop :=
  match r with
  | none => ∀ ip, PoolAddress d ip → Unexpired now d ip
  | some ip => t.database.isAvailable ip none = .ok true

/-- `get_ip` gives up only when the pool is exhausted. -/
def ExhaustedOnly (now : Int) (wantIp : Option Str) (s : State) : Prop :=
  wp (getIp now wantIp) (Answers now s.database) (fun _ _ => True) s

/-- The first lease of the table that ran out, which is the one that cleaning drops. -/
def firstExpired (now : Int) (d : Database) : Option (Str × IPAddressLease) :=
  d.ipAddressLeases.entries.find? fun entry => decide (now > entry.2.expiredTime)

/-- A lease of the pool that ran out is passed over: the wanted address is not available, all
    of the pool is leased, and the first lease that ran out is not one of the pool. -/
structure PassedOver (now : Int) (wantIp : Option Str) (d : Database) : Prop where
  unwanted : ∀ ip, wantIp = some ip → ip ≠ [] → ¬ d.Available ip
  leased : ∀ ip, PoolAddress d ip → ip ∈ d.ipAddressLeases.keys
  ranOut : ∃ ip, PoolAddress d ip ∧ ¬ Unexpired now d ip
  first : ∀ ip lease, firstExpired now d = some (ip, lease) → ¬ PoolAddress d ip

/-- Without an entry that ran out, a lease is a lease that did not run out. -/
theorem unexpired_of_leased {ip : Str} (hnone : firstExpired now d = none)
    (h : ip ∈ d.ipAddressLeases.keys) : Unexpired now d ip := by
  obtain ⟨lease, hget⟩ := (Dict.mem_keys_iff _ _).mp h
  refine ⟨lease, hget, ?_⟩
  have hold := List.find?_eq_none.mp hnone (ip, lease) ((Dict.mem_entries_iff _ _ _).mpr hget)
  simpa using hold

/-- Dropping a lease leaves all of the pool leased exactly if it was not one of the pool. -/
theorem leased_erase_iff (gone : Str)
    (hleased : ∀ ip, PoolAddress d ip → ip ∈ d.ipAddressLeases.keys) :
    (∀ ip, PoolAddress d ip → ip ∈ (d.ipAddressLeases.erase gone).keys) ↔
      ¬ PoolAddress d gone := by
  constructor
  · intro hall hpool
    exact ((Dict.mem_keys_erase _ _ _).mp (hall gone hpool)).1 rfl
  · intro hnot ip hpool
    refine (Dict.mem_keys_erase _ _ _).mpr ⟨?_, hleased ip hpool⟩
    rintro rfl
    exact hnot hpool

/-- Cleaning drops the first lease that ran out. -/
theorem cleanIpAddressLeases_of_some {s : State} {gone : Str} {lease : IPAddressLease}
    (h : firstExpired now s.database = some (gone, lease)) :
    ∃ t, cleanIpAddressLeases now s = .ok true t ∧
      t.database = s.database.withLeases (s.database.ipAddressLeases.erase gone) := by
  unfold firstExpired at h
  rw [cleanIpAddressLeases, bind_apply, get_apply]
  simp only [h]
  exact ⟨_, rfl, rfl⟩

theorem cleanIpAddressLeases_of_none {s : State} (h : firstExpired now s.database = none) :
    cleanIpAddressLeases now s = .ok false s := by
  unfold firstExpired at h
  rw [cleanIpAddressLeases, bind_apply, get_apply]
  simp only [h]
  rfl

/-- The scan with its cleaning, when the wanted address is not available. -/
theorem wp_scanPool_iff {wantIp : Option Str} {s : State}
    (hpre : s.database.getPrefix = .ok pre)
    (hwant : ∀ ip, wantIp = some ip → ip ≠ [] → ¬ s.database.Available ip) :
    wp (scanPool now pre) (Answers now s.database) (fun _ _ => True) s ↔
      ¬ PassedOver now wantIp s.database := by
  obtain ⟨r, hr, hnone⟩ := firstAvailable_pool hpre
  rw [scanPool, wp_bind, wp_get, lift_ok_bind hr]
  cases r with
  | some ip =>
      have havailable := (fromPool_of_firstAvailable hpre hr).1
      refine iff_of_true (isAvailable_of_available havailable) fun h => ?_
      exact Option.some_ne_none ip (hnone.mpr h.leased)
  | none =>
      have hleased := hnone.mp rfl
      show wp (cleanIpAddressLeases now >>= _) _ _ s ↔ _
      cases hfirst : firstExpired now s.database with
      | none =>
          rw [wp_bind_of_ok (cleanIpAddressLeases_of_none hfirst)]
          have hall : ∀ ip, PoolAddress s.database ip → Unexpired now s.database ip :=
            fun ip hpool => unexpired_of_leased hfirst (hleased ip hpool)
          refine iff_of_true hall fun h => ?_
          obtain ⟨ip, hpool, hranOut⟩ := h.ranOut
          exact hranOut (hall ip hpool)
      | some entry =>
          obtain ⟨gone, lease⟩ := entry
          obtain ⟨t, ht, hdb⟩ := cleanIpAddressLeases_of_some hfirst
          have hpre' : t.database.getPrefix = .ok pre := by rw [hdb]; exact hpre
          obtain ⟨r', hr', hnone'⟩ := firstAvailable_pool hpre'
          have hstill := leased_erase_iff gone hleased
          rw [hdb] at hnone'
          rw [wp_bind_of_ok ht, if_pos rfl, wp_bind_of_ok (get_apply t), hr']
          cases r' with
          | some ip =>
              have havailable := (fromPool_of_firstAvailable hpre' hr').1
              refine iff_of_true (isAvailable_of_available havailable) fun h => ?_
              exact Option.some_ne_none ip (hnone'.mpr (hstill.mpr (h.first gone lease hfirst)))
          | none =>
              have hgone : ¬ PoolAddress s.database gone := hstill.mp (hnone'.mp rfl)
              constructor
              · intro hall h
                obtain ⟨ip, hpool, hranOut⟩ := h.ranOut
                exact hranOut (hall ip hpool)
              · intro hnot ip hpool
                by_contra hranOut
                refine hnot ⟨hwant, hleased, ⟨ip, hpool, hranOut⟩, fun ip' lease' hfirst' => ?_⟩
                rw [hfirst, Option.some_inj, Prod.mk.injEq] at hfirst'
                rw [← hfirst'.1]
                exact hgone

/-- `get_ip` gives up although a lease of the pool ran out exactly when it passes that lease
    over. -/
theorem exhausted_only_iff (now : Int) (wantIp : Option Str) (s : State) :
    ExhaustedOnly now wantIp s ↔ ¬ PassedOver now wantIp s.database := by
  unfold ExhaustedOnly getIp
  rw [wp_bind, wp_get]
  cases hpre : s.database.getPrefix with
  | error e =>
      refine iff_of_true trivial fun h => ?_
      obtain ⟨ip, ⟨pre, i, hpre', -⟩, -⟩ := h.ranOut
      rw [hpre] at hpre'
      cases hpre'
  | ok pre =>
      rw [lift_ok_bind rfl]
      split
      · exact wp_scanPool_iff hpre nofun
      · refine wp_scanPool_iff hpre fun ip hip hne => ?_
        exact absurd (Option.some_inj.mp hip).symm hne
      · next ip hne =>
          obtain ⟨b, hb, havailable⟩ := isAvailable_spec hpre ip
          rw [lift_ok_bind hb]
          cases b with
          | true =>
              have hyes := havailable.mp rfl
              refine iff_of_true (isAvailable_of_available hyes) fun h => ?_
              exact h.unwanted ip rfl (fun hnil => hne (by rw [hnil])) hyes
          | false =>
              refine wp_scanPool_iff hpre fun ip' hip _ hyes => ?_
              cases hip
              exact Bool.false_ne_true (havailable.mpr hyes)

/-- One address in the pool, whose lease ran out, and a lease of an address outside the pool that
    ran out and was stored first. -/
def strayFirst : Database where
  poolRange := (10, 10)
  ipAddressLeases := (Dict.empty.set "192.168.100.200".toList ⟨0⟩).set "192.168.100.10".toList ⟨0⟩

/-- The pool of one address counts as exhausted although its lease ran out. -/
theorem not_exhausted_only :
    ¬ ∀ (now : Int) (wantIp : Option Str) (s : State), ExhaustedOnly now wantIp s := by
  intro hall
  have h := hall 60 none ⟨strayFirst, strayFirst, []⟩
  have hnone : ∃ t, getIp 60 none ⟨strayFirst, strayFirst, []⟩ = .ok none t := ⟨_, rfl⟩
  obtain ⟨t, ht⟩ := hnone
  rw [ExhaustedOnly, wp, ht] at h
  obtain ⟨lease, hget, hlease⟩ := h "192.168.100.10".toList (by decide +kernel)
  cases hget
  exact absurd hlease (by decide)

end Dhcp
end NetworkingFinal
