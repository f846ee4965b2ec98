/-
  NetworkingFinal.Net.Datagrams

  What a datagram can do to the three servers before it is handled: the storage
  application decodes it outside any `try`, and the other two inside a `recvfrom` that
  catches `socket.error` only.

  - `datagrams_received_iff`: the datagrams that a server receives or drops; every other
    one ends its main loop.
-/
import NetworkingFinal.App.Receive
import NetworkingFinal.Dhcp.Receive
import NetworkingFinal.Dns.Receive

namespace NetworkingFinal
namespace Net

open Py Ftp Lib

/-- **Receiving a datagram.**  In a state of a run,
    - the storage application goes on with the empty datagram and with those that hold
      a pocket, unless it is a Request of sub type Unknown that the account check lets
      through;
    - the DHCP server goes on with those that end inside the addresses of the header,
      and with those that have the whole header and no option of a wrong length, or
      whose first such option is an address;
    - the DNS server goes on with those that hold the records the header counts, all
      under names the table knows by offset. -/
theorem datagrams_received_iff {env : App.Env} {fs : FileTree} {es : List App.Event}
    {s : App.Server} (h : exec (App.step env) (App.Server.init fs) es = some s)
    (amb : App.Ambient) (data : Bytes) (source : App.Addr) :
    ((¬ ∃ e, App.ReceiveFails env amb data source s e) ↔
      data = [] ∨ (PocketAt data ∧ ¬ App.UnknownRequest env amb s.app.fs data)) ∧
    ((∃ packet?, Dhcp.recvfrom data = .ok packet?) ↔
      (12 ≤ data.length ∧ data.length < 28) ∨
        (240 ≤ data.length ∧ Dhcp.OptionsReadable (data.drop 240))) ∧
    ((∃ packet?, Dns.recvfrom data = .ok packet?) ↔ Dns.MessageAt data) :=
  ⟨App.receiveFails_iff h amb data source, Dhcp.receives_iff data, Dns.receives_iff data⟩

/-- An anonymous Request of sub type Unknown. -/
def unknownRequest : Bytes :=
  Pocket.datagram
    { basicLayer := ⟨0, .request, .unknown⟩, requestLayer := some ⟨0, 1500, true, [], []⟩ }

/-- It ends the storage application and the DHCP server; to the DNS server it is a message
    without records. -/
theorem datagrams_received_iff_downloadRun :
    ∃ s, exec (App.step default)
        (App.Server.init (App.installedWith default ['a'] [1, 2, 3]))
        (App.downloadRun (['c'], 8001)) = some s ∧
      (∃ e, App.ReceiveFails default default unknownRequest (['d'], 8002) s e) ∧
      (¬ ∃ packet?, Dhcp.recvfrom unknownRequest = .ok packet?) ∧
      ∃ packet?, Dns.recvfrom unknownRequest = .ok packet? := by
  have hrun : (exec (App.step default) (App.Server.init (App.installedWith default ['a'] [1, 2, 3]))
      (App.downloadRun (['c'], 8001))).isSome = true := by decide +kernel
  obtain ⟨s, hs⟩ := Option.isSome_iff_exists.mp hrun
  obtain ⟨happ, hdhcp, hdns⟩ :=
    datagrams_received_iff hs default unknownRequest (['d'], 8002)
  refine ⟨s, hs, ?_, fun h => ?_, hdns.mpr ?_⟩
  · by_contra hnone
    rcases happ.mp hnone with h | ⟨-, hknown⟩
    · exact absurd h (by decide +kernel)
    · exact hknown ⟨by decide +kernel, by decide +kernel, ⟨0, 1500, true, [], []⟩,
        by decide +kernel, Or.inl rfl⟩
  · have hlength : unknownRequest.length = 44 := by decide +kernel
    have hreadable := hdhcp.mp h
    omega
  · exact ⟨by decide +kernel, 12, 12, 12, 12, Dict.empty, Dict.empty, Dict.empty, Dict.empty,
      .nil, .nil, .nil, .nil⟩

/-- A datagram of one byte ends the main loop of each server, and a Request of sub type
    Unknown that of the storage application. -/
theorem not_datagrams_received_oneByte :
    (∃ t, App.step default (App.Server.init (App.installed default))
        (.recv [0] (['c'], 8001) default) = some t ∧ t.stopped = some .structError) ∧
      (∃ t, App.step default (App.Server.init (App.installed default))
        (.recv unknownRequest (['c'], 8001) default) = some t ∧
          t.stopped = some .unboundLocalError) ∧
      Dhcp.step (Dhcp.Server.init {}) (.datagram [0] 0) =
        some { Dhcp.Server.init {} with stopped := some .valueError } ∧
      (∀ o, Dns.step (Dns.Server.init {}) (.datagram [0] (['c'], 5353) o) =
        some { Dns.Server.init {} with stopped := some .structError }) ∧
      (∃ e, App.ReceiveFails default default [0] (['c'], 8001)
        (App.Server.init (App.installed default)) e) ∧
      ¬ (∃ packet?, Dhcp.recvfrom [0] = .ok packet?) ∧
      ¬ ∃ packet?, Dns.recvfrom [0] = .ok packet? := by
  have hpocket : Pocket.fromBytes [0] = .error .structError := by decide +kernel
  have hdhcp : Dhcp.recvfrom [0] = .error .valueError := by decide +kernel
  have hdns : Dns.recvfrom [0] = .error .structError := by decide +kernel
  have hfails : App.ReceiveFails default default [0] (['c'], 8001)
      (App.Server.init (App.installed default)) .structError :=
    .decode (List.cons_ne_nil _ _) hpocket
  have hunknown : (App.step default (App.Server.init (App.installed default))
      (.recv unknownRequest (['c'], 8001) default)).map (fun t => t.stopped) =
      some (some .unboundLocalError) := by decide +kernel
  refine ⟨hfails.stops rfl, ?_, Dhcp.stops_of_recvfrom hdhcp rfl 0,
    fun o => Dns.stops_of_recvfrom hdns rfl _ o, ⟨_, hfails⟩, ?_, ?_⟩
  · exact Option.map_eq_some_iff.mp hunknown
  · rintro ⟨packet?, hpacket⟩
    rw [hdhcp] at hpacket
    cases hpacket
  · rintro ⟨packet?, hpacket⟩
    rw [hdns] at hpacket
    cases hpacket

end Net
end NetworkingFinal
