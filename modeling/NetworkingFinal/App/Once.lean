/-
  NetworkingFinal.App.Once

  An accepted upload is stored once.

  The request table remembers what has been stored: while the main loop goes on, an
  upload is in the table exactly as long as `post_upload` has not been called for it
  (`Once`), so that a segment that comes again finds it or is answered with a Close.
-/
import NetworkingFinal.App.Replies

namespace NetworkingFinal
namespace App

open Py Ftp Lib

variable {env : Env} {s t : Server} {e : Event} {r : Nat}

-- ============================================================================
-- One upload
-- ============================================================================

/-- The request `r` is an upload, in the table as long as it has not been stored. -/
structure Once (s : Server) (r : Nat) : Prop where
  drawn : r ≤ s.app.lastRequestID
  once : (postsFor r s.app.log).length ≤ 1
  table : s.stopped = none →
    (postsFor r s.app.log = [] ↔ ∃ u, s.handlers.get? r = some (.upload u))

theorem Once.recv {data : Bytes} {a : Addr} (h : Once s r) (hs : AppInv s)
    (hrun : s.stopped = none) (hrecv : RecvStep env s data a t) : Once t r := by
  cases hrecv with
  | quiet tables log clientAddress stopped =>
      have hhandlers : t.handlers = s.handlers := congrArg Tables.handlers tables
      have hlast : t.app.lastRequestID = s.app.lastRequestID :=
        congrArg Tables.lastRequestID tables
      refine ⟨hlast ▸ h.drawn, log ▸ h.once, fun _ => ?_⟩
      rw [log, hhandlers]
      exact h.table hrun
  | @turn p ok pre new decoded effect log resent clientAddress returned raised =>
      have hdrawn : r ≤ t.app.lastRequestID := h.drawn.trans effect.lastRequestID_le
      have hposts : postsFor r t.app.log = postsFor r s.app.log ++ postsFor r new := by
        rw [log, postsFor_append, postsFor_append, postsFor_eq_nil_of_resent resent,
          List.append_nil]
      rcases effect.posts r with hnil | ⟨hfresh, -⟩ |
        ⟨g, segment, -, -, found, -, rfl, hbody, hgone⟩
      · -- nothing is stored, and the upload stays where it is
        rw [hnil, List.append_nil] at hposts
        refine ⟨hdrawn, hposts ▸ h.once, fun _ => ?_⟩
        rw [hposts, h.table hrun]
        constructor
        · rintro ⟨u, hu⟩
          rcases effect.get?_upload hs.server.tables hu with ⟨u', hu', -⟩ | hposted
          · exact ⟨u', hu'⟩
          · exact absurd hnil hposted
        · rintro ⟨u, hu⟩
          rcases effect.upload_cases hu with hold | ⟨hfresh, -⟩ | ⟨g, -, -, -, found, rfl, -⟩
          · exact ⟨u, hold⟩
          · have hlast : r = s.app.lastRequestID + 1 := hfresh
            exact absurd h.drawn (by omega)
          · exact ⟨g, found⟩
      · have hlast : r = s.app.lastRequestID + 1 := hfresh
        exact absurd h.drawn (by omega)
      · -- the upload was in the table, so that this is the first time
        have hid : g.requestID = p.requestID := (hs.server.tables.id _ _ found).1
        have hnone : postsFor g.requestID s.app.log = [] := by
          refine (h.table hrun).mpr ⟨g, ?_⟩
          rw [hid]
          exact found
        rw [hnone, hbody] at hposts
        refine ⟨hdrawn, by rw [hposts]; exact Nat.le_refl 1, fun hgoes => ?_⟩
        have hok : ok = true := by
          rw [← Bool.not_eq_false]
          intro hfail
          obtain ⟨e, he, -⟩ := raised hfail
          rw [hgoes] at he
          cases he
        refine iff_of_false (by rw [hposts]; exact List.cons_ne_nil _ _) ?_
        rintro ⟨u, hu⟩
        exact absurd ((hgone hok).symm.trans hu) (Option.some_ne_none _).symm

theorem Once.step (h : Once s r) (hs : AppInv s) (hstep : App.step env s e = some t) :
    Once t r := by
  cases e with
  | timeout => exact step_timeout hstep ▸ h
  | recv data a amb =>
      obtain ⟨hrun, hrecv⟩ := step_recv hstep
      exact h.recv hs hrun hrecv
  | task i clk =>
      obtain ⟨task, task', result, hd, new, hmem, -, hlive, heff, rfl⟩ := (step_task hstep).effect
      have hposts : postsFor r (s.app.log ++ new) = postsFor r s.app.log := by
        rw [postsFor_append, heff.postsFor_eq_nil, List.append_nil]
      refine ⟨h.drawn, (congrArg List.length hposts).trans_le h.once, fun hrun => ?_⟩
      have hsame : ∀ u, hd.get? r = some (.upload u) ↔ s.handlers.get? r = some (.upload u) :=
        fun u => heff.get?_upload hs.server.tables hmem hlive
      refine (iff_of_eq (congrArg (· = []) hposts)).trans ((h.table hrun).trans ?_)
      exact exists_congr fun u => (hsame u).symm

/-- The turn that accepts an upload has not stored it. -/
theorem once_of_fresh (hs : AppInv s) (hstep : App.step env s e = some t)
    (hfresh : s.app.lastRequestID < r) {u : UploadRequestHandler}
    (hu : t.handlers.get? r = some (.upload u)) : Once t r := by
  have hnone : s.handlers.get? r = none := by
    rw [Option.eq_none_iff_forall_ne_some]
    intro g hg
    exact absurd (hs.server.tables.id _ _ hg).2.2 (Nat.not_le.mpr hfresh)
  have hold : s.handlers.get? r ≠ some (.upload u) := by
    rw [hnone]
    exact (Option.some_ne_none _).symm
  cases e with
  | timeout => exact absurd (step_timeout hstep ▸ hu) hold
  | recv data a amb =>
      obtain ⟨-, hrecv⟩ := step_recv hstep
      cases hrecv with
      | quiet tables log clientAddress stopped =>
          have hhandlers : t.handlers = s.handlers := congrArg Tables.handlers tables
          exact absurd (hhandlers ▸ hu) hold
      | @turn p ok pre new decoded effect log resent clientAddress returned raised =>
          obtain ⟨g, res, -, -, -, hlast, -, rfl⟩ := effect.opened_of_fresh hnone
            fun hempty => absurd (hempty.symm.trans hu) (Option.some_ne_none _).symm
          have hposts : postsFor r t.app.log = [] := by
            rw [log, postsFor_append, postsFor_append, hs.log.posts r hfresh,
              postsFor_eq_nil_of_resent resent]
            rfl
          refine ⟨(show t.app.lastRequestID = r from hlast).ge, by rw [hposts]; exact Nat.zero_le 1,
            fun _ => iff_of_true hposts ⟨u, hu⟩⟩
  | task i clk =>
      obtain ⟨task, task', result, hd, new, hmem, -, hlive, heff, rfl⟩ := (step_task hstep).effect
      exact absurd ((heff.get?_upload hs.server.tables hmem hlive).mp hu) hold

-- ============================================================================
-- Whole runs
-- ============================================================================

/-- Every upload in the table is one of which this is known. -/
structure OnceInv (s : Server) : Prop where
  app : AppInv s
  uploads : ∀ r u, s.handlers.get? r = some (.upload u) → Once s r

theorem OnceInv.step (h : OnceInv s) (hstep : App.step env s e = some t) : OnceInv t where
  app := h.app.step hstep
  uploads r u hu := by
    rcases Nat.lt_or_ge s.app.lastRequestID r with hfresh | hdrawn
    · exact once_of_fresh h.app hstep hfresh hu
    · obtain ⟨u₀, hu₀, -⟩ := (step_grows h.app hstep).old r u hdrawn hu
      exact (h.uploads r u₀ hu₀).step h.app hstep

theorem onceInv_init (fs : FileTree) : OnceInv (Server.init fs) :=
  ⟨appInv_init fs, fun _ _ hu => by cases hu⟩

/-- **An accepted upload is stored once**, whatever arrives after it was accepted: it
    stays in the table until `post_upload` is called for it, never comes back, and
    `post_upload` is not called for it again. -/
theorem stored_once {fs : FileTree} {es es' : List Event} {u : UploadRequestHandler}
    (hrun : exec (App.step env) (Server.init fs) es = some s)
    (hu : s.handlers.get? r = some (.upload u)) (hmore : exec (App.step env) s es' = some t) :
    Once t r := by
  have hinv : OnceInv s :=
    exec_invariant OnceInv (onceInv_init fs) (fun _ _ _ hs ht => hs.step ht) hrun
  have hboth : AppInv t ∧ Once t r :=
    exec_invariant (fun s => AppInv s ∧ Once s r) ⟨hinv.app, hinv.uploads r u hu⟩
      (fun _ _ _ hs ht => ⟨hs.1.step ht, hs.2.step hs.1 ht⟩) hmore
  exact hboth.2

/-- The segment of `uploadRequest`'s upload arrives twice. -/
def segmentTwice : List Event :=
  [.recv (segmentPocket 1 0 [1, 7]).datagram (['c'], 8001) default,
   .recv (segmentPocket 1 0 [1, 7]).datagram (['c'], 8001) default]

theorem stored_once_segmentTwice :
    ∃ s t, exec (App.step default) (Server.init (installed default))
        [.recv uploadRequest.datagram (['c'], 8001) default] = some s ∧
      exec (App.step default) s segmentTwice = some t ∧
      postsFor 1 t.app.log = [[1, 7]] ∧ Once t 1 := by
  have hcheck : (exec (App.step default) (Server.init (installed default))
      [.recv uploadRequest.datagram (['c'], 8001) default]).map (fun s =>
        ((exec (App.step default) s segmentTwice).map fun t => postsFor 1 t.app.log,
          (s.handlers.get? 1).map Handler.isDownload)) = some (some [[1, 7]], some false) := by
    decide +kernel
  obtain ⟨s, hs, hfacts⟩ := Option.map_eq_some_iff.mp hcheck
  obtain ⟨hmore, hopen⟩ := Prod.mk.inj hfacts
  obtain ⟨t, ht, hposts⟩ := Option.map_eq_some_iff.mp hmore
  obtain ⟨g, hg, hupload⟩ := Option.map_eq_some_iff.mp hopen
  cases g with
  | upload u => exact ⟨s, t, hs, ht, hposts, stored_once hs hg ht⟩
  | download g => cases hupload

end App
end NetworkingFinal
