/-
  NetworkingFinal.App.Downloads

  What the steps of the process do to a download that is there: a turn of the main
  loop marks it ready or queues a pocket for it, and only the worker of its own
  key touches its windows.
-/
import NetworkingFinal.App.RequestTable

namespace NetworkingFinal
namespace App

open Py Py.Prog Ftp Lib

variable {env : Env} {clk : Readings}

/-- What a turn on the pocket `p` does to the download under the key `k`. -/
inductive Touched (p : Pocket) (k : Nat) (g : DownloadRequestHandler) :
    DownloadRequestHandler → Prop
  | same : Touched p k g g
  | readied (other : p.basicLayer.pocketType ≠ .request) (own : p.requestID = k) :
      Touched p k g { g with ready := true }
  | queued (other : p.basicLayer.pocketType ≠ .request) (own : p.requestID = k) :
      Touched p k g { g with pockets := g.pockets ++ [p] }

/-- No turn takes a download out of the table. -/
theorem Effect.get?_download {T T' : Tables} {p : Pocket} {a : Addr} {ok : Bool}
    {new : List Action} (hT : TableInv T) (h : Effect env T p a ok T' new) {k : Nat}
    {g : DownloadRequestHandler} (hg : T.handlers.get? k = some (.download g)) :
    ∃ g', T'.handlers.get? k = some (.download g') ∧ Touched p k g g' := by
  have hle : k ≤ T.lastRequestID := (hT.id _ _ hg).2.2
  -- a turn on a pocket for an upload changes another key
  have hupload : ∀ {u f}, T.handlers.get? p.requestID = some (.upload u) →
      (T.handlers.set p.requestID f).get? k = some (.download g) := by
    intro u f hu
    rw [Dict.get?_set_of_ne, hg]
    rintro rfl
    rw [hg] at hu
    cases hu
  have hset : ∀ {g₀ g₁}, T.handlers.get? p.requestID = some (.download g₀) →
      (k = p.requestID → g₀ = g → Touched p k g g₁) →
      ∃ g', (T.handlers.set p.requestID (.download g₁)).get? k = some (.download g') ∧
        Touched p k g g' := by
    intro g₀ g₁ hfound htouched
    by_cases hk : k = p.requestID
    · have hsame : g₀ = g := by
        rw [← hk, hg] at hfound
        exact (Handler.download.inj (Option.some.inj hfound)).symm
      rw [hk, Dict.get?_set_self, ← hk]
      exact ⟨g₁, rfl, htouched hk hsame⟩
    · rw [Dict.get?_set_of_ne hk]
      exact ⟨g, hg, .same⟩
  cases h with
  | @opened f res request opened =>
      have hid := opened.base_eq.1
      refine ⟨g, ?_, .same⟩
      simp only
      rw [Dict.get?_set_of_ne (by omega), hg]
  | stored type found layer part length finished => exact ⟨g, hupload found, .same⟩
  | stuck type found layer full part closed => exact ⟨g, hupload found, .same⟩
  | @completed u segment type found layer full =>
      have hid : u.requestID = p.requestID := (hT.id _ _ found).1
      refine ⟨g, ?_, .same⟩
      simp only
      rw [Dict.get?_erase_of_ne, hupload found]
      rintro rfl
      rw [hid, found] at hg
      cases hg
  | started other found unready => exact hset found fun hk hsame => hsame ▸ .readied other hk.symm
  | halfStarted other found unready missing =>
      exact hset found fun hk hsame => hsame ▸ .readied other hk.symm
  | queued other found ready => exact hset found fun hk hsame => hsame ▸ .queued other hk.symm
  | _ => exact ⟨g, hg, .same⟩

/-- A worker leaves the other requests alone. -/
theorem TaskEffect.get?_of_ne {s : Server} {t : Task} {result : Option Task}
    {hs : Dict Nat Handler} {new : List Action} (hT : TableInv s.tables)
    (h : TaskEffect clk s t result hs new) {k : Nat} (hk : k ≠ t.key) :
    hs.get? k = s.handlers.get? k := by
  rcases h.replaces with rfl | ⟨g, g', -, -, rfl⟩ | ⟨g, -, -, hg, rfl⟩
  · rfl
  · exact Dict.get?_set_of_ne hk
  · have hid : g.requestID = t.key := (hT.id _ _ hg).1
    rw [hid]
    exact Dict.get?_erase_of_ne hk

end App
end NetworkingFinal
