/-
  NetworkingFinal.Net.Pair

  The server process and one client on a network.

  A pair takes steps of either side in any order.  The network is not a component
  of its own: a step of a side may receive any datagram, and a result about a
  network that only loses, duplicates, reorders and delays what was sent is a
  result about the runs in which every received datagram had been sent before.
-/
import NetworkingFinal.App.Log
import NetworkingFinal.Client.Rudp

namespace NetworkingFinal
namespace Net

open Py Ftp App Client Lib

variable {π : Type}

structure Pair (π : Type) where
  server : Server
  client : π

inductive PairEvent where
  | server (e : Event)
  | client (m : Move)

namespace Pair

/-- The steps of the server with a client that moves by `move`. -/
def step (env : Env) (move : π → Move → Option π) (w : Pair π) : PairEvent → Option (Pair π)
  | .server e => (App.step env w.server e).map fun s => { w with server := s }
  | .client m => (move w.client m).map fun c => { w with client := c }

variable {env : Env} {move : π → Move → Option π} {w w' : Pair π}

theorem step_server {e : Event} (h : step env move w (.server e) = some w') :
    ∃ s, App.step env w.server e = some s ∧ w' = { w with server := s } := by
  obtain ⟨s, hs, heq⟩ := Option.map_eq_some_iff.mp h
  exact ⟨s, hs, heq.symm⟩

theorem step_client {m : Move} (h : step env move w (.client m) = some w') :
    ∃ c, move w.client m = some c ∧ w' = { w with client := c } := by
  obtain ⟨c, hc, heq⟩ := Option.map_eq_some_iff.mp h
  exact ⟨c, hc, heq.symm⟩

end Pair

-- ============================================================================
-- The Response of an accepted request
-- ============================================================================

/-- `resPocket` is what the client decodes when the Response `res` arrives. -/
def Arrives (res resPocket : Pocket) : Prop :=
  ∃ bs, res.toBytes = .ok bs ∧ Pocket.fromBytes bs = .ok resPocket

/-- The client learns the request id and the sizes the server opened it with. -/
theorem Arrives.of_opened {env : Env} {request res resPocket : Pocket} {a : Addr} {r : Nat}
    {g : Handler} (h : Arrives res resPocket) (ho : Opened env request a r g res) :
    resPocket.requestID = r ∧ resPocket.responseLayer = res.responseLayer := by
  obtain ⟨bs, hbs, hdecode⟩ := h
  obtain ⟨layer, storagePath, data, dataSize, -, -, -, hres, -⟩ := ho.shape
  have htype : res.basicLayer.pocketType = .response := by rw [ho.layer]
  obtain ⟨hbasic, hresponse⟩ :=
    Pocket.fromBytes_response hbs htype ho.plain hres nofun hdecode
  refine ⟨?_, hresponse.trans hres.symm⟩
  rw [Pocket.requestID, hbasic, ho.layer]

theorem segmentSize_pos (env : Env) (size : Nat) : 0 < segmentSize env size := by
  have hmax := env.config.max_pos
  have hmin := env.config.min_pos
  rw [segmentSize]
  omega

end Net
end NetworkingFinal
