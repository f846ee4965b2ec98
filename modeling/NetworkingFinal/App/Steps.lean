/-
  NetworkingFinal.App.Steps

  The steps of the process taken apart: `step_recv` for a datagram, `step_task`
  for a worker.  Invariants of the process are proved from these two.
-/
import NetworkingFinal.App.TaskEffect
import NetworkingFinal.Lib.Runs

namespace NetworkingFinal
namespace App

open Py Py.Prog Ftp Lib

variable {env : Env}

/-- After a turn on a datagram from `a`. -/
inductive RecvStep (env : Env) (s : Server) (data : Bytes) (a : Addr) (t : Server) : Prop
  /-- the datagram is empty or does not decode -/
  | quiet
      (tables : t.tables = s.tables)
      (log : t.app.log = s.app.log)
      (clientAddress : t.clientAddress = some a)
      (stopped : t.stopped ≠ some .keyError)
  | turn {p : Pocket} {ok : Bool} {pre new : List Action}
      (decoded : Pocket.fromBytes data = .ok p)
      (effect : Effect env s.tables p a ok t.tables new)
      (log : t.app.log = s.app.log ++ pre ++ new)
      (resent : ∀ x ∈ pre, Resent s x)
      (clientAddress : t.clientAddress = some a)
      (returned : ok = true → t.stopped = none)
      (raised : ok = false → ∃ e, t.stopped = some e ∧
        (e = .keyError → LookupFails s.tables p))

theorem step_recv {s t : Server} {data : Bytes} {a : Addr} {amb : Ambient}
    (h : step env s (.recv data a amb) = some t) :
    s.stopped = none ∧ RecvStep env s data a t := by
  rw [step] at h
  split at h
  · next hstop =>
      refine ⟨hstop, ?_⟩
      cases h
      have hw := (wp_iteration : wp (iteration env amb data a) _ _ s)
      unfold wp at hw
      cases hr : iteration env amb data a s with
      | ok u t =>
          rw [hr] at hw
          rcases hw with rfl | ⟨p, hp, ⟨pre, new, heffect, hlog, hpre⟩, hca, hst⟩
          · refine .quiet rfl rfl rfl ?_
            simp [afterRecv, hstop]
          · exact .turn hp heffect hlog hpre hca (fun _ => by rw [afterRecv, hst, hstop])
              fun hf => by cases hf
      | error e t =>
          rw [hr] at hw
          rcases hw with ⟨rfl, he⟩ | ⟨p, hp, ⟨⟨pre, new, heffect, hlog, hpre⟩, hca, hst⟩, hkey⟩
          · refine .quiet rfl rfl rfl ?_
            exact fun hk => he (Option.some.inj hk)
          · exact .turn hp heffect hlog hpre hca (fun hf => by cases hf)
              fun _ => ⟨e, rfl, hkey⟩
  · cases h

/-- After a step of the task at position `i`. -/
structure TaskStep (clk : Readings) (s : Server) (i : Nat) (t : Server) : Prop where
  worked : ∃ (task task' : Task) (hs : Dict Nat Handler) (new : List Action),
    s.tasks[i]? = some task ∧ task.live = true ∧
    (TaskEffect clk s task (some task') hs new ∨
      TaskEffect clk s task none hs new ∧ ∃ e, task' = { task with phase := .failed e } ∧
        (e = .keyError → TaskLookupFails s task)) ∧
    t = { s.advanced hs new with tasks := s.tasks.set i task' }

theorem step_task {s t : Server} {i : Nat} {clk : Readings}
    (h : step env s (.task i clk) = some t) : TaskStep clk s i t := by
  rw [step] at h
  split at h
  · next task htask =>
      split at h
      · next hrunning =>
          have hlive : task.live = true := by
            rw [running, htask, Bool.and_eq_true] at hrunning
            exact hrunning.1
          cases h
          have hw := (wp_taskStep : wp (taskStep env clk task) _ _ s)
          unfold wp at hw
          cases hr : taskStep env clk task s with
          | ok task' u =>
              rw [hr] at hw
              obtain ⟨hs, new, heffect, rfl⟩ := hw
              exact ⟨task, task', hs, new, htask, hlive, Or.inl heffect, rfl⟩
          | error e u =>
              rw [hr] at hw
              obtain ⟨⟨hs, new, heffect, rfl⟩, hkey⟩ := hw
              exact ⟨task, _, hs, new, htask, hlive, Or.inr ⟨heffect, e, rfl, hkey⟩, rfl⟩
      · cases h
  · cases h

/-- The effect of a worker's step, whether the task goes on or fails. -/
theorem TaskStep.effect {s t : Server} {i : Nat} {clk : Readings} (h : TaskStep clk s i t) :
    ∃ task task' result hs new, task ∈ s.tasks ∧ s.tasks[i]? = some task ∧ task.live = true ∧
      TaskEffect clk s task result hs new ∧
      t = { s.advanced hs new with tasks := s.tasks.set i task' } := by
  obtain ⟨task, task', hs, new, htask, hlive, heffect, rfl⟩ := h.worked
  have hmem : task ∈ s.tasks := List.mem_of_getElem? htask
  rcases heffect with heffect | ⟨heffect, -⟩
  · exact ⟨task, task', _, hs, new, hmem, htask, hlive, heffect, rfl⟩
  · exact ⟨task, task', _, hs, new, hmem, htask, hlive, heffect, rfl⟩

theorem step_timeout {s t : Server} (h : step env s .timeout = some t) : t = s := by
  rw [step] at h
  split at h
  · cases h
    rfl
  · cases h

end App
end NetworkingFinal
