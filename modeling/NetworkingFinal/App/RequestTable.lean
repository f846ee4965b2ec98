/-
  NetworkingFinal.App.RequestTable

  The tables of the main loop stay in step: `handlers`, `notReady`, the flag of
  each download handler and the submitted tasks, over every run.

  `TableInv` speaks about the tables alone and is kept also by turns that an
  exception cuts short; `request_table` reads the claims about a run off it.
-/
import NetworkingFinal.App.Steps

namespace NetworkingFinal
namespace App

open Py Py.Prog Ftp Lib

variable {env : Env} {clk : Readings}

/-- A download handler that waits for its first pocket. -/
def Handler.unready : Handler → Bool
  | .upload _ => false
  | .download h => !h.ready

theorem Handler.unready_iff {h : Handler} :
    h.unready = true ↔ ∃ g, h = .download g ∧ g.ready = false := by
  cases h <;> simp [Handler.unready]

/-- A download handler whose task was submitted. -/
def Handler.busy (h : Handler) : Bool := h.isDownload && !h.unready

theorem Handler.busy_iff {h : Handler} :
    h.busy = true ↔ ∃ g, h = .download g ∧ g.ready = true := by
  cases h <;> simp [Handler.busy, Handler.unready, Handler.isDownload]

/-- Nothing the tables look at changes from one handler to the other. -/
structure Handler.Same (h h' : Handler) : Prop where
  base : h'.base = h.base
  kind : h'.isDownload = h.isDownload
  unready : h'.unready = h.unready

structure TableInv (T : Tables) : Prop where
  notReady : ∀ k, k ∈ T.notReady.keys ↔ ∃ h, T.handlers.get? k = some h ∧ h.unready = true
  id : ∀ k h, T.handlers.get? k = some h → h.requestID = k ∧ 1 ≤ k ∧ k ≤ T.lastRequestID
  once : (T.tasks.map Task.key).Nodup
  working : ∀ t ∈ T.tasks, t.phase ≠ .ended →
    ∃ h, T.handlers.get? t.key = some h ∧ h.busy = true
  done : ∀ t ∈ T.tasks, t.phase = .ended → T.handlers.get? t.key = none
  past : ∀ t ∈ T.tasks, t.key ≤ T.lastRequestID

theorem map_key_set {tasks : List Task} {i : Nat} {t t' : Task} (ht : tasks[i]? = some t)
    (hkey : t'.key = t.key) : (tasks.set i t').map Task.key = tasks.map Task.key := by
  obtain ⟨hi, hti⟩ := List.getElem?_eq_some_iff.mp ht
  have hlen : i < (tasks.map Task.key).length := by
    rw [List.length_map]
    exact hi
  have hget : (tasks.map Task.key)[i] = t.key := by
    rw [List.getElem_map, hti]
  rw [List.map_set, hkey, ← hget, List.set_getElem_self]

/-- With the task at one position replaced, the others work under other keys. -/
theorem mem_set_of_once {tasks : List Task} {i : Nat} {t t' u : Task}
    (honce : (tasks.map Task.key).Nodup) (ht : tasks[i]? = some t) (hu : u ∈ tasks.set i t') :
    u = t' ∨ u ∈ tasks ∧ u.key ≠ t.key := by
  have hlen : i < tasks.length := (List.getElem?_eq_some_iff.mp ht).1
  obtain ⟨j, hj⟩ := List.mem_iff_getElem?.mp hu
  by_cases hij : i = j
  · subst hij
    rw [List.getElem?_set_self hlen] at hj
    exact Or.inl (Option.some.inj hj).symm
  · rw [List.getElem?_set_ne hij] at hj
    refine Or.inr ⟨List.mem_of_getElem? hj, fun hk => hij ?_⟩
    have hi : i < (tasks.map Task.key).length := by
      rw [List.length_map]
      exact hlen
    refine (List.getElem?_inj hi honce).mp ?_
    rw [List.getElem?_map, List.getElem?_map, ht, hj, Option.map_some, Option.map_some, hk]

/-- No upload in the table is complete. -/
def UploadsOpen (T : Tables) : Prop :=
  ∀ k h, T.handlers.get? k = some (.upload h) → h.segments.size < h.segmentsAmount

namespace TableInv

variable {T : Tables}

/-- The lookups of a turn succeed. -/
theorem not_lookupFails (h : TableInv T) (p : Pocket) : ¬ LookupFails T p := by
  rintro (⟨k, hk, hnone⟩ | ⟨g, hg, hready, hnone⟩ | ⟨g, hg, hne⟩)
  · obtain ⟨g, hg, -⟩ := (h.notReady k).mp hk
    rw [hg] at hnone
    cases hnone
  · have hid : g.requestID = p.requestID := (h.id _ _ hg).1
    rw [hid, Dict.get?_eq_none_iff, h.notReady] at hnone
    exact hnone ⟨_, hg, by simp [Handler.unready, hready]⟩
  · exact hne (h.id _ _ hg).1

/-- A handler replaced by one that looks the same to the tables. -/
theorem replace (h : TableInv T) {k : Nat} {g g' : Handler}
    (hfound : T.handlers.get? k = some g) (hsame : g.Same g') :
    TableInv (T.withHandler k g') := by
  have hget : ∀ j f, (T.handlers.set k g').get? j = some f →
      ∃ f', T.handlers.get? j = some f' ∧ f'.Same f := by
    intro j f hj
    rw [Dict.get?_set] at hj
    split at hj
    · next hjk =>
        cases hj
        exact ⟨g, hjk ▸ hfound, hsame⟩
    · exact ⟨f, hj, rfl, rfl, rfl⟩
  have hput : ∀ j f, T.handlers.get? j = some f →
      ∃ f', (T.handlers.set k g').get? j = some f' ∧ f.Same f' := by
    intro j f hj
    rw [Dict.get?_set]
    split
    · next hjk =>
        rw [hjk, hfound] at hj
        cases hj
        exact ⟨g', rfl, hsame⟩
    · exact ⟨f, hj, rfl, rfl, rfl⟩
  have hnone : ∀ j, T.handlers.get? j = none → (T.handlers.set k g').get? j = none := by
    intro j hj
    rw [Dict.get?_set_of_ne, hj]
    rintro rfl
    rw [hfound] at hj
    cases hj
  constructor
  · intro j
    rw [show (T.withHandler k g').notReady = T.notReady from rfl, h.notReady]
    constructor
    · rintro ⟨f, hf, hu⟩
      obtain ⟨f', hf', hs⟩ := hput j f hf
      exact ⟨f', hf', hs.unready.trans hu⟩
    · rintro ⟨f, hf, hu⟩
      obtain ⟨f', hf', hs⟩ := hget j f hf
      exact ⟨f', hf', hs.unready.symm.trans hu⟩
  · intro j f hf
    obtain ⟨f', hf', hs⟩ := hget j f hf
    have := h.id j f' hf'
    rwa [Handler.requestID, ← hs.base] at this
  · exact h.once
  · intro t ht hphase
    obtain ⟨f, hf, hb⟩ := h.working t ht hphase
    obtain ⟨f', hf', hs⟩ := hput _ f hf
    exact ⟨f', hf', by rw [Handler.busy, hs.kind, hs.unready]; exact hb⟩
  · exact fun t ht hphase => hnone _ (h.done t ht hphase)
  · exact h.past

/-- A handler taken out: it is not waiting, and no task works on it. -/
theorem remove (h : TableInv T) {k : Nat} {g : Handler} (hfound : T.handlers.get? k = some g)
    (hunready : g.unready = false)
    (hidle : ∀ t ∈ T.tasks, t.key = k → t.phase = .ended) :
    TableInv { T with handlers := T.handlers.erase k } := by
  constructor
  · intro j
    rw [h.notReady, Dict.get?_erase]
    by_cases hj : j = k
    · subst hj
      simp [hfound, hunready]
    · simp [hj]
  · intro j f hf
    rw [Dict.get?_erase] at hf
    split at hf
    · cases hf
    · exact h.id j f hf
  · exact h.once
  · intro t ht hphase
    rw [Dict.get?_erase_of_ne fun hk => hphase (hidle t ht hk)]
    exact h.working t ht hphase
  · intro t ht hphase
    rw [Dict.get?_erase, h.done t ht hphase, ite_self]
  · exact h.past

/-- A task replaced by one that works on the same handler and has not ended. -/
theorem setTask (h : TableInv T) {i : Nat} {t t' : Task} (ht : T.tasks[i]? = some t)
    (hlive : t.phase ≠ .ended) (hkey : t'.key = t.key) (hphase : t'.phase ≠ .ended) :
    TableInv { T with tasks := T.tasks.set i t' } := by
  have hmem : t ∈ T.tasks := List.mem_of_getElem? ht
  constructor
  · exact h.notReady
  · exact h.id
  · show ((T.tasks.set i t').map Task.key).Nodup
    rw [map_key_set ht hkey]
    exact h.once
  · intro u hu hup
    rcases List.mem_or_eq_of_mem_set hu with hu | rfl
    · exact h.working u hu hup
    · rw [hkey]
      exact h.working t hmem hlive
  · intro u hu hup
    rcases List.mem_or_eq_of_mem_set hu with hu | rfl
    · exact h.done u hu hup
    · exact absurd hup hphase
  · intro u hu
    rcases List.mem_or_eq_of_mem_set hu with hu | rfl
    · exact h.past u hu
    · rw [hkey]
      exact h.past t hmem

end TableInv

-- ============================================================================
-- Opened and changed handlers
-- ============================================================================

@[simp] theorem openedHandler_base (h : RequestHandler) (n : Nat) (data : Bytes) (res : Pocket) :
    (openedHandler h n data res).base = h := by
  unfold openedHandler
  split <;> rfl

/-- A fresh handler waits for its first pocket when it is a download. -/
theorem openedHandler_unready (h : RequestHandler) (n : Nat) (data : Bytes) (res : Pocket) :
    (openedHandler h n data res).unready = (openedHandler h n data res).isDownload := by
  unfold openedHandler
  split <;> rfl

theorem Opened.base_eq {request : Pocket} {a : Addr} {r : Nat} {h : Handler} {res : Pocket}
    (ho : Opened env request a r h res) : h.requestID = r ∧ h.clientAddress = a := by
  obtain ⟨layer, storagePath, data, dataSize, -, -, -, -, rfl⟩ := ho.shape
  simp [Handler.requestID, Handler.clientAddress]

theorem Opened.unready_eq {request : Pocket} {a : Addr} {r : Nat} {h : Handler} {res : Pocket}
    (ho : Opened env request a r h res) : h.unready = h.isDownload := by
  obtain ⟨layer, storagePath, data, dataSize, -, -, -, -, rfl⟩ := ho.shape
  exact openedHandler_unready _ _ _ _

@[simp] theorem store_base (h : UploadRequestHandler) (segment : SegmentLayer) :
    (h.store segment).toRequestHandler = h.toRequestHandler := by
  unfold UploadRequestHandler.store
  split <;> rfl

theorem same_store (h : UploadRequestHandler) (segment : SegmentLayer) :
    (Handler.upload h).Same (.upload (h.store segment)) :=
  ⟨store_base h segment, rfl, rfl⟩

/-- A download handler that only differs in windows and queue. -/
theorem same_download {h h' : DownloadRequestHandler}
    (hbase : h'.toRequestHandler = h.toRequestHandler) (hready : h'.ready = h.ready) :
    (Handler.download h).Same (.download h') :=
  ⟨hbase, rfl, by rw [Handler.unready, Handler.unready, hready]⟩

theorem same_receivePocket (h : DownloadRequestHandler) (pockets : List Pocket) (p : Pocket) :
    (Handler.download h).Same (.download (receivePocket { h with pockets } p)) := by
  refine same_download ?_ ?_ <;> unfold receivePocket <;> split
  · rfl
  · split <;> rfl
  · rfl
  · split <;> rfl

-- ============================================================================
-- Turns of the main loop
-- ============================================================================

/-- A new request: its id is past every key and every task. -/
theorem TableInv.addOpened {T : Tables} {p : Pocket} {a : Addr} {h : Handler} {res : Pocket}
    (hT : TableInv T) (ho : Opened env p a (T.lastRequestID + 1) h res) :
    TableInv { T with
      handlers := T.handlers.set h.requestID h
      notReady := if h.isDownload then T.notReady.set h.requestID res else T.notReady
      lastRequestID := T.lastRequestID + 1 } := by
  obtain ⟨hid, -⟩ := ho.base_eq
  have hfresh : T.handlers.get? h.requestID = none := by
    by_contra hne
    obtain ⟨g, hg⟩ := Option.ne_none_iff_exists'.mp hne
    have := (hT.id _ _ hg).2.2
    omega
  constructor
  · intro k
    have hkeys : k ∈ (if h.isDownload then T.notReady.set h.requestID res
        else T.notReady).keys ↔ (h.isDownload = true ∧ k = h.requestID) ∨ k ∈ T.notReady.keys := by
      split <;> simp_all [Dict.mem_keys_set]
    rw [hkeys, hT.notReady, Dict.get?_set]
    by_cases hk : k = h.requestID
    · subst hk
      simp [hfresh, ho.unready_eq]
    · simp [hk]
  · intro k g hg
    rw [Dict.get?_set] at hg
    split at hg
    · next hk =>
        cases hg
        exact ⟨hk.symm, by omega, by simp only; omega⟩
    · obtain ⟨hg1, hg2, hg3⟩ := hT.id k g hg
      exact ⟨hg1, hg2, Nat.le_succ_of_le hg3⟩
  · exact hT.once
  · intro t ht hphase
    have hpast := hT.past t ht
    rw [Dict.get?_set_of_ne (by omega)]
    exact hT.working t ht hphase
  · intro t ht hphase
    have hpast := hT.past t ht
    rw [Dict.get?_set_of_ne (by omega)]
    exact hT.done t ht hphase
  · exact fun t ht => Nat.le_succ_of_le (hT.past t ht)

/-- The first pocket of a download: its task is the only one for its key. -/
theorem TableInv.start {T : Tables} {k : Nat} {h : DownloadRequestHandler} (hT : TableInv T)
    (hfound : T.handlers.get? k = some (.download h)) (hready : h.ready = false) :
    TableInv { T with
      handlers := T.handlers.set k (.download { h with ready := true })
      notReady := T.notReady.erase k
      tasks := T.tasks ++ [{ key := k }] } := by
  obtain ⟨hid, hpos, hle⟩ := hT.id k _ hfound
  have hidle : ∀ t ∈ T.tasks, t.key ≠ k := by
    rintro t ht rfl
    by_cases hphase : t.phase = .ended
    · rw [hT.done t ht hphase] at hfound
      cases hfound
    · obtain ⟨g, hg, hb⟩ := hT.working t ht hphase
      rw [hfound] at hg
      cases hg
      simp [Handler.busy, Handler.unready, Handler.isDownload, hready] at hb
  constructor
  · intro j
    rw [Dict.mem_keys_erase, hT.notReady, Dict.get?_set]
    by_cases hj : j = k
    · simp [hj, Handler.unready]
    · simp [hj]
  · intro j g hg
    rw [Dict.get?_set] at hg
    split at hg
    · next hj =>
        cases hg
        exact ⟨hid.trans hj.symm, by omega, by simp only; omega⟩
    · exact hT.id j g hg
  · rw [List.map_append, List.nodup_append]
    refine ⟨hT.once, List.nodup_singleton _, fun x hx y hy => ?_⟩
    obtain ⟨t, ht, rfl⟩ := List.mem_map.mp hx
    rw [List.mem_singleton.mp hy]
    exact hidle t ht
  · intro t ht hphase
    rcases List.mem_append.mp ht with ht | ht
    · rw [Dict.get?_set_of_ne (hidle t ht)]
      exact hT.working t ht hphase
    · rw [List.mem_singleton.mp ht]
      exact ⟨_, Dict.get?_set_self _ _ _, by simp [Handler.busy, Handler.unready, Handler.isDownload]⟩
  · intro t ht hphase
    rcases List.mem_append.mp ht with ht | ht
    · rw [Dict.get?_set_of_ne (hidle t ht)]
      exact hT.done t ht hphase
    · rw [List.mem_singleton.mp ht] at hphase
      cases hphase
  · intro t ht
    rcases List.mem_append.mp ht with ht | ht
    · exact hT.past t ht
    · rw [List.mem_singleton.mp ht]
      exact hle

theorem TableInv.effect {T T' : Tables} {p : Pocket} {a : Addr} {ok : Bool} {new : List Action}
    (hT : TableInv T) (h : Effect env T p a ok T' new) : TableInv T' := by
  cases h with
  | broken => exact hT
  | refused request drawn replies =>
      refine ⟨hT.notReady, fun k g hg => ?_, hT.once, hT.working, hT.done, fun t ht => ?_⟩
      · obtain ⟨h1, h2, h3⟩ := hT.id k g hg
        exact ⟨h1, h2, by simp only; omega⟩
      · have := hT.past t ht
        simp only
        omega
  | opened request opened => exact hT.addOpened opened
  | ignored other found noSegment => exact hT
  | stored type found layer part length finished => exact hT.replace found (same_store _ _)
  | stuck type found layer full part closed => exact hT.replace found (same_store _ _)
  | @completed g segment type found layer full =>
      have hrep := hT.replace found (same_store g segment)
      have hid : g.requestID = p.requestID := (hT.id _ _ found).1
      rw [hid]
      refine hrep.remove (Dict.get?_set_self _ _ _) rfl fun t ht hk => ?_
      by_contra hphase
      obtain ⟨f, hf, hb⟩ := hT.working t ht hphase
      rw [hk, found] at hf
      cases hf
      simp [Handler.busy, Handler.isDownload] at hb
  | @started g other found unready =>
      rw [show g.requestID = p.requestID from (hT.id _ _ found).1]
      exact hT.start found unready
  | halfStarted other found unready missing =>
      exact absurd (Or.inr (Or.inl ⟨_, found, unready, missing⟩)) (hT.not_lookupFails p)
  | queued other found ready => exact hT.replace found (same_download rfl rfl)
  | unknown other absent => exact hT

/-- A turn submits at most one task. -/
theorem Effect.tasks_eq {T T' : Tables} {p : Pocket} {a : Addr} {ok : Bool} {new : List Action}
    (h : Effect env T p a ok T' new) :
    T'.tasks = T.tasks ∨ T'.tasks = T.tasks ++ [{ key := p.requestID }] := by
  cases h with
  | started other found unready => exact Or.inr rfl
  | _ => exact Or.inl rfl

/-- Completed turns leave no complete upload in the table. -/
theorem UploadsOpen.effect {T T' : Tables} {p : Pocket} {a : Addr} {new : List Action}
    (hT : TableInv T) (hopen : UploadsOpen T) (h : Effect env T p a true T' new) :
    UploadsOpen T' := by
  have hset : ∀ (k : Nat) (g : Handler), (∀ u, g = .upload u → u.segments.size < u.segmentsAmount) →
      UploadsOpen (T.withHandler k g) := by
    intro k g hg j u hu
    rw [show (T.withHandler k g).handlers = T.handlers.set k g from rfl, Dict.get?_set] at hu
    split at hu
    · exact hg u (Option.some.inj hu)
    · exact hopen j u hu
  cases h with
  | refused request drawn replies => exact hopen
  | @opened g res request opened =>
      refine hset g.requestID g fun u hu => ?_
      obtain ⟨layer, storagePath, data, dataSize, -, -, hne, -, hg⟩ := opened.shape
      rw [hg] at hu
      unfold openedHandler at hu
      split at hu
      · cases hu
        exact segmentsAmountOf_pos hne
      · cases hu
  | ignored other found noSegment => exact hopen
  | @stored _ g segment new type found layer part length finished =>
      refine hset _ _ fun u hu => ?_
      cases hu
      have hne := (finished rfl).2
      have hlt := hopen _ _ found
      have hle : (g.store segment).segments.size ≤ g.segments.size + 1 := by
        unfold UploadRequestHandler.store
        split
        · exact Nat.le_succ _
        · next hmem => rw [Dict.size_set_of_notMem hmem]
      have hamount : (g.store segment).segmentsAmount = g.segmentsAmount := by
        unfold UploadRequestHandler.store
        split <;> rfl
      omega
  | @completed g segment type found layer full =>
      rw [show g.requestID = p.requestID from (hT.id _ _ found).1]
      intro j u hu
      simp only [Dict.get?_erase, Dict.get?_set] at hu
      split at hu
      · cases hu
      · exact hopen j u hu
  | started other found unready => exact hset _ _ fun u hu => by cases hu
  | queued other found ready => exact hset _ _ fun u hu => by cases hu
  | unknown other absent => exact hopen

-- ============================================================================
-- Steps of tasks
-- ============================================================================

theorem TaskEffect.key_eq {s : Server} {t t' : Task} {hs : Dict Nat Handler} {new : List Action}
    (h : TaskEffect clk s t (some t') hs new) : t'.key = t.key := by
  cases h with
  | received phase found queue =>
      unfold Task.afterPocket
      split <;> rfl
  | _ => rfl

/-- A live task ends by taking its handler out, and in no other way. -/
theorem TaskEffect.ended_iff {s : Server} {t t' : Task} {hs : Dict Nat Handler}
    {new : List Action} (h : TaskEffect clk s t (some t') hs new) (hlive : t.live = true)
    (hended : t'.phase = .ended) :
    ∃ g, s.handlers.get? t.key = some (.download g) ∧ hs = s.handlers.erase g.requestID := by
  cases h with
  | left phase found => exact ⟨_, found, rfl⟩
  | sent phase going found window room address encoded => rw [phase] at hended; cases hended
  | received phase found queue =>
      unfold Task.afterPocket at hended
      split at hended <;> (rw [phase] at hended; cases hended)
  | waiting phase => rw [phase] at hended; cases hended
  | halted dead => rw [hlive] at dead; cases dead
  | _ => cases hended

theorem live_not_ended {t : Task} (h : t.live = true) : t.phase ≠ .ended := by
  intro hp
  simp [Task.live, hp] at h

/-- Whatever a task does to the handlers, except taking its own out. -/
theorem TaskEffect.replaces {s : Server} {t : Task} {result : Option Task}
    {hs : Dict Nat Handler} {new : List Action} (h : TaskEffect clk s t result hs new) :
    hs = s.handlers ∨
    (∃ g g', s.handlers.get? t.key = some g ∧ g.Same g' ∧ hs = s.handlers.set t.key g') ∨
    (∃ g, t.phase = .leaving ∧ result = some { t with phase := .ended } ∧
      s.handlers.get? t.key = some (.download g) ∧ hs = s.handlers.erase g.requestID) := by
  cases h with
  | @sent g k ws a phase going found window room address encoded =>
      have hsame : (Handler.download g).Same (.download (g.shift k ws)) := same_download rfl rfl
      exact Or.inr (Or.inl ⟨_, _, found, hsame, rfl⟩)
  | @dropped g k ws phase going found window =>
      have hsame : (Handler.download g).Same (.download (g.shift k ws)) := same_download rfl rfl
      exact Or.inr (Or.inl ⟨_, _, found, hsame, rfl⟩)
  | received phase found queue =>
      exact Or.inr (Or.inl ⟨_, _, found, same_receivePocket _ _ _, rfl⟩)
  | @requeued g cwnd cwndMax rtt last phase found queue =>
      have hsame : (Handler.download g).Same (.download (requeue g)) := same_download rfl rfl
      exact Or.inr (Or.inl ⟨_, _, found, hsame, rfl⟩)
  | left phase found => exact Or.inr (Or.inr ⟨_, phase, rfl, found, rfl⟩)
  | _ => exact Or.inl rfl

/-- A task works on a download, so the uploads are as they were. -/
theorem TaskEffect.get?_upload {s : Server} {t : Task} {result : Option Task}
    {hs : Dict Nat Handler} {new : List Action} (h : TaskEffect clk s t result hs new)
    (hT : TableInv s.tables) (hmem : t ∈ s.tasks) (hlive : t.live = true) {k : Nat}
    {u : UploadRequestHandler} :
    hs.get? k = some (.upload u) ↔ s.handlers.get? k = some (.upload u) := by
  obtain ⟨f, hf, hbusy⟩ := hT.working t hmem (live_not_ended hlive)
  obtain ⟨d, rfl, -⟩ := Handler.busy_iff.mp hbusy
  have hkey : s.handlers.get? t.key = some (.download d) := hf
  rcases h.replaces with rfl | ⟨g, g', hg, hsame, rfl⟩ | ⟨g, -, -, hg, rfl⟩
  · exact Iff.rfl
  · have hkind : g'.isDownload = true := by
      rw [hsame.kind, Option.some.inj (hg.symm.trans hkey)]
      rfl
    by_cases hk : k = t.key
    · rw [hk, Dict.get?_set_self, hkey]
      cases g' with
      | upload u' => cases hkind
      | download d' => simp
    · rw [Dict.get?_set_of_ne hk]
  · have hid : g.requestID = t.key := (hT.id _ _ hg).1
    by_cases hk : k = t.key
    · rw [hid, hk, Dict.get?_erase_self, hkey]
      simp
    · rw [hid, Dict.get?_erase_of_ne hk]

/-- A task that took its handler out and ended. -/
theorem TableInv.finish {T : Tables} {i : Nat} {t t' : Task} {g : Handler} (hT : TableInv T)
    (ht : T.tasks[i]? = some t) (hkey : t'.key = t.key)
    (hphase : t'.phase = .ended) (hfound : T.handlers.get? t.key = some g)
    (hbusy : g.busy = true) :
    TableInv { T with handlers := T.handlers.erase t.key, tasks := T.tasks.set i t' } := by
  have hmem : t ∈ T.tasks := List.mem_of_getElem? ht
  have hunready : g.unready = false := by
    rw [Handler.busy, Bool.and_eq_true] at hbusy
    simpa using hbusy.2
  have hpos : ∀ u ∈ T.tasks.set i t', u = t' ∨ u ∈ T.tasks ∧ u.key ≠ t.key :=
    fun u hu => mem_set_of_once hT.once ht hu
  refine ⟨fun k => ?_, fun k f hf => ?_, ?_, fun u hu hup => ?_, fun u hu hup => ?_,
    fun u hu => ?_⟩
  · rw [hT.notReady]
    simp only [Dict.get?_erase]
    by_cases hk : k = t.key
    · subst hk
      simp [hfound, hunready]
    · simp [hk]
  · simp only [Dict.get?_erase] at hf
    split at hf
    · cases hf
    · exact hT.id k f hf
  · rw [map_key_set ht hkey]
    exact hT.once
  · rcases hpos u hu with rfl | ⟨hmemu, hneu⟩
    · exact absurd hphase hup
    · simp only [Dict.get?_erase_of_ne hneu]
      exact hT.working u hmemu hup
  · rcases hpos u hu with rfl | ⟨hmemu, hneu⟩
    · simp only [hkey, Dict.get?_erase_self]
    · simp only [Dict.get?_erase_of_ne hneu]
      exact hT.done u hmemu hup
  · rcases hpos u hu with rfl | ⟨hmemu, -⟩
    · rw [hkey]
      exact hT.past t hmem
    · exact hT.past u hmemu

theorem TableInv.task {s t : Server} {i : Nat} (hT : TableInv s.tables)
    (h : TaskStep clk s i t) : TableInv t.tables := by
  obtain ⟨task, task', hs, new, htask, hlive, heffect, rfl⟩ := h.worked
  have hne := live_not_ended hlive
  have hmem : task ∈ s.tasks := List.mem_of_getElem? htask
  have hkey : task'.key = task.key := by
    rcases heffect with heffect | ⟨-, e, rfl, -⟩
    · exact heffect.key_eq
    · rfl
  by_cases hended : task'.phase = .ended
  · have herase : ∃ g, s.handlers.get? task.key = some (.download g) ∧
        hs = s.handlers.erase g.requestID := by
      rcases heffect with heffect | ⟨-, e, rfl, -⟩
      · exact heffect.ended_iff hlive hended
      · cases hended
    obtain ⟨g, hg, rfl⟩ := herase
    obtain ⟨f, hf, hbusy⟩ := hT.working task hmem hne
    rw [show g.requestID = task.key from (hT.id _ _ hg).1]
    exact hT.finish htask hkey hended hf hbusy
  · have hset := hT.setTask htask hne hkey hended
    have hany : ∃ result, TaskEffect clk s task result hs new ∧
        (result = some task' ∨ result = none) := by
      rcases heffect with heffect | ⟨heffect, -⟩
      · exact ⟨_, heffect, Or.inl rfl⟩
      · exact ⟨_, heffect, Or.inr rfl⟩
    obtain ⟨result, heff, hresult⟩ := hany
    rcases heff.replaces with rfl | ⟨g, g', hg, hsame, rfl⟩ | ⟨g, -, hres, -⟩
    · exact hset
    · exact hset.replace hg hsame
    · rcases hresult with h | h
      · rw [hres, Option.some_inj] at h
        rw [← h] at hended
        exact absurd rfl hended
      · rw [hres] at h
        cases h

-- ============================================================================
-- Handlers are never overwritten
-- ============================================================================

/-- A handler that is there before and after serves the same request. -/
def Kept (d d' : Dict Nat Handler) : Prop :=
  ∀ k h h', d.get? k = some h → d'.get? k = some h' →
    h'.base = h.base ∧ h'.isDownload = h.isDownload

theorem kept_refl (d : Dict Nat Handler) : Kept d d := by
  intro k h h' hh hh'
  rw [hh] at hh'
  cases hh'
  exact ⟨rfl, rfl⟩

theorem kept_set {d : Dict Nat Handler} {k : Nat} {g' : Handler}
    (h : ∀ g, d.get? k = some g → g.Same g') : Kept d (d.set k g') := by
  intro j f f' hf hf'
  rw [Dict.get?_set] at hf'
  split at hf'
  · next hj =>
      cases hf'
      have hs := h f (hj ▸ hf)
      exact ⟨hs.base, hs.kind⟩
  · exact kept_refl d j f f' hf hf'

theorem kept_replace {d : Dict Nat Handler} {k : Nat} {g g' : Handler}
    (hfound : d.get? k = some g) (hsame : g.Same g') : Kept d (d.set k g') := by
  refine kept_set fun f hf => ?_
  rw [hfound] at hf
  cases hf
  exact hsame

theorem Kept.erase {d d' : Dict Nat Handler} (h : Kept d d') (k : Nat) : Kept d (d'.erase k) := by
  intro j f f' hf hf'
  rw [Dict.get?_erase] at hf'
  split at hf'
  · cases hf'
  · exact h j f f' hf hf'

theorem Effect.kept {T T' : Tables} {p : Pocket} {a : Addr} {ok : Bool} {new : List Action}
    (hT : TableInv T) (h : Effect env T p a ok T' new) : Kept T.handlers T'.handlers := by
  have hready : ∀ g : DownloadRequestHandler, ∀ b,
      ∀ f f' : Handler, f = .download g → f' = .download { g with ready := b } →
      f'.base = f.base ∧ f'.isDownload = f.isDownload := by
    rintro g b f f' rfl rfl
    exact ⟨rfl, rfl⟩
  have hstart : ∀ (k : Nat) (g : DownloadRequestHandler), T.handlers.get? k = some (.download g) →
      Kept T.handlers (T.handlers.set k (.download { g with ready := true })) := by
    intro k g hg j f f' hf hf'
    rw [Dict.get?_set] at hf'
    split at hf'
    · next hj =>
        rw [hj, hg] at hf
        exact hready g true f f' (Option.some.inj hf).symm (Option.some.inj hf').symm
    · exact kept_refl _ j f f' hf hf'
  cases h with
  | @opened g res request opened =>
      refine kept_set fun f hf => ?_
      have hid := opened.base_eq.1
      have hle := (hT.id _ _ hf).2.2
      omega
  | stored type found layer part length finished => exact kept_replace found (same_store _ _)
  | stuck type found layer full part closed => exact kept_replace found (same_store _ _)
  | completed type found layer full => exact (kept_replace found (same_store _ _)).erase _
  | started other found unready => exact hstart _ _ found
  | halfStarted other found unready missing => exact hstart _ _ found
  | queued other found ready => exact kept_replace found (same_download rfl rfl)
  | _ => exact kept_refl _

theorem TaskEffect.kept {s : Server} {t : Task} {result : Option Task}
    {hs : Dict Nat Handler} {new : List Action} (h : TaskEffect clk s t result hs new) :
    Kept s.handlers hs := by
  rcases h.replaces with rfl | ⟨g, g', hg, hsame, rfl⟩ | ⟨g, -, -, -, rfl⟩
  · exact kept_refl _
  · exact kept_replace hg hsame
  · exact (kept_refl _).erase _

-- ============================================================================
-- Runs
-- ============================================================================

/-- The invariant of the process about its tables. -/
structure ServerInv (s : Server) : Prop where
  tables : TableInv s.tables
  uploads : s.stopped = none → UploadsOpen s.tables
  stopped : s.stopped ≠ some .keyError
  failed : ∀ t ∈ s.tasks, t.phase ≠ .failed .keyError

theorem serverInv_init (fs : FileTree) : ServerInv (Server.init fs) where
  tables := by
    constructor <;> simp [Server.init, Server.tables, Dict.keys, Dict.empty, Dict.get?]
  uploads := by
    intro _ k h hk
    cases hk
  stopped := by simp [Server.init]
  failed := by simp [Server.init]

theorem ServerInv.recv {s t : Server} {data : Bytes} {a : Addr} (hs : ServerInv s)
    (hstop : s.stopped = none) (h : RecvStep env s data a t) : ServerInv t := by
  cases h with
  | quiet tables log clientAddress stopped =>
      have htasks : t.tasks = s.tasks := congrArg Tables.tasks tables
      exact ⟨by rw [tables]; exact hs.tables, fun _ => by rw [tables]; exact hs.uploads hstop,
        stopped, by rw [htasks]; exact hs.failed⟩
  | @turn p ok pre new decoded effect log resent clientAddress returned raised =>
      refine ⟨hs.tables.effect effect, fun hrun => ?_, fun hk => ?_, ?_⟩
      · cases ok with
        | true => exact (hs.uploads hstop).effect hs.tables effect
        | false =>
            obtain ⟨e, he, -⟩ := raised rfl
            rw [hrun] at he
            cases he
      · cases ok with
        | true =>
            rw [returned rfl] at hk
            cases hk
        | false =>
            obtain ⟨e, he, hkey⟩ := raised rfl
            rw [he, Option.some_inj] at hk
            exact hs.tables.not_lookupFails p (hkey hk)
      · have htasks : t.tasks = s.tasks ∨ t.tasks = s.tasks ++ [{ key := p.requestID }] :=
          effect.tasks_eq
        rcases htasks with htasks | htasks
        · rw [htasks]
          exact hs.failed
        · intro u hu
          rw [htasks, List.mem_append, List.mem_singleton] at hu
          rcases hu with hu | rfl
          · exact hs.failed u hu
          · exact TaskPhase.noConfusion

theorem ServerInv.task {s t : Server} {i : Nat} (hs : ServerInv s) (h : TaskStep clk s i t) :
    ServerInv t := by
  have htables := hs.tables.task h
  obtain ⟨task, task', hd, new, htask, hlive, heffect, rfl⟩ := h.worked
  have hmem : task ∈ s.tasks := List.mem_of_getElem? htask
  obtain ⟨g, hg, hbusy⟩ := hs.tables.working task hmem (live_not_ended hlive)
  refine ⟨htables, fun hrun => ?_, hs.stopped, fun u hu => ?_⟩
  · intro k u hu
    have hany : ∃ result, TaskEffect clk s task result hd new := by
      rcases heffect with heffect | ⟨heffect, -⟩
      · exact ⟨_, heffect⟩
      · exact ⟨_, heffect⟩
    obtain ⟨result, heff⟩ := hany
    exact hs.uploads hrun k u ((heff.get?_upload hs.tables hmem hlive).mp hu)
  · rcases List.mem_or_eq_of_mem_set hu with hu | rfl
    · exact hs.failed u hu
    · rcases heffect with heffect | ⟨-, e, rfl, hkey⟩
      · intro hp
        have hlive' : task.live = true → u.phase = .failed .keyError → False := by
          intro _ hp
          cases heffect with
          | sent phase going found window room address encoded => rw [phase] at hp; cases hp
          | received phase found queue =>
              unfold Task.afterPocket at hp
              split at hp <;> (rw [phase] at hp; cases hp)
          | waiting phase => rw [phase] at hp; cases hp
          | halted dead => rw [hlive] at dead; cases dead
          | _ => cases hp
        exact hlive' hlive hp
      · intro hp
        simp only [TaskPhase.failed.injEq] at hp
        rcases hkey hp with hnone | ⟨f, hf, hne⟩
        · rw [show s.tables.handlers = s.handlers from rfl, hnone] at hg
          cases hg
        · exact hne (hs.tables.id _ _ hf).1

theorem ServerInv.step {s t : Server} {e : Event} (hs : ServerInv s)
    (h : step env s e = some t) : ServerInv t := by
  cases e with
  | recv data a amb =>
      obtain ⟨hstop, hrecv⟩ := step_recv h
      exact hs.recv hstop hrecv
  | timeout => exact step_timeout h ▸ hs
  | task i clk => exact hs.task (step_task h)

theorem serverInv_of_exec {fs : FileTree} {es : List Event} {s : Server}
    (h : exec (step env) (Server.init fs) es = some s) : ServerInv s :=
  exec_invariant ServerInv (serverInv_init fs) (fun _ _ _ hs ht => hs.step ht) h

theorem ServerInv.kept {s t : Server} {e : Event} (hs : ServerInv s)
    (h : App.step env s e = some t) : Kept s.handlers t.handlers := by
  cases e with
  | recv data a amb =>
      obtain ⟨-, hrecv⟩ := step_recv h
      cases hrecv with
      | quiet tables log clientAddress stopped =>
          rw [show t.handlers = t.tables.handlers from rfl, tables]
          exact kept_refl _
      | turn decoded effect log resent clientAddress returned raised =>
          exact effect.kept hs.tables
  | timeout => exact step_timeout h ▸ kept_refl _
  | task i clk =>
      obtain ⟨task, task', result, hd, new, -, -, -, heff, rfl⟩ := (step_task h).effect
      exact heff.kept

/-- The tables of a process in step with each other:
    (a) exactly the downloads that wait for their first pocket are in `notReady`;
    (b) a handler is stored under its own id, an id drawn before, and no step
    replaces it by the handler of another request;
    (c) while the main loop runs, no upload in the table is complete;
    (d) no two tasks were submitted for one key, and the handler of a task stays
    until the task ends;
    and no lookup in `handlers` or `notReady` has failed. -/
structure InStep (env : Env) (s : Server) : Prop where
  notReady : ∀ k, k ∈ s.notReady.keys ↔
    ∃ d, s.handlers.get? k = some (.download d) ∧ d.ready = false
  own : ∀ k g, s.handlers.get? k = some g →
    g.requestID = k ∧ 1 ≤ k ∧ k ≤ s.app.lastRequestID
  kept : ∀ e t, App.step env s e = some t → Kept s.handlers t.handlers
  uploads : s.stopped = none → ∀ k u, s.handlers.get? k = some (.upload u) →
    u.segments.size < u.segmentsAmount
  once : (s.tasks.map Task.key).Nodup
  working : ∀ t ∈ s.tasks, t.phase ≠ .ended →
    ∃ d, s.handlers.get? t.key = some (.download d) ∧ d.ready = true
  lookups : s.stopped ≠ some .keyError ∧ ∀ t ∈ s.tasks, t.phase ≠ .failed .keyError

/-- **The request table.**  The tables are in step after every run of the process. -/
theorem request_table {fs : FileTree} {es : List Event} {s : Server}
    (h : exec (App.step env) (Server.init fs) es = some s) : InStep env s := by
  have hs := serverInv_of_exec h
  refine ⟨fun k => ?_, hs.tables.id, fun e t ht => hs.kept ht, hs.uploads, hs.tables.once,
    fun t ht hphase => ?_, hs.stopped, hs.failed⟩
  · rw [show s.notReady = s.tables.notReady from rfl, hs.tables.notReady]
    constructor
    · rintro ⟨g, hg, hu⟩
      obtain ⟨d, rfl, hd⟩ := Handler.unready_iff.mp hu
      exact ⟨d, hg, hd⟩
    · rintro ⟨d, hd, hready⟩
      exact ⟨_, hd, Handler.unready_iff.mpr ⟨d, rfl, hready⟩⟩
  · obtain ⟨g, hg, hbusy⟩ := hs.tables.working t ht hphase
    obtain ⟨d, rfl, hd⟩ := Handler.busy_iff.mp hbusy
    exact ⟨d, hg, hd⟩

/-- An anonymous request to download the public file `a`. -/
def downloadRequest : Pocket :=
  { basicLayer := ⟨0, .request, .download⟩
    requestLayer := some ⟨0, 1500, true, [], []⟩
    downloadRequestLayer := some ⟨['a']⟩ }

/-- The download is accepted, its first pocket arrives, and its task starts. -/
def downloadRun (a : Addr) : List Event :=
  [.recv downloadRequest.datagram a default, .recv (readyPocket 1).datagram a default,
   .task 0 ⟨0, 0, 0⟩]

theorem request_table_downloadRun :
    ∃ s, exec (App.step default) (Server.init (installedWith default ['a'] [1, 2, 3]))
        (downloadRun (['c'], 8001)) = some s ∧ s.tasks.length = 1 ∧ InStep default s := by
  have hrun : (exec (App.step default) (Server.init (installedWith default ['a'] [1, 2, 3]))
      (downloadRun (['c'], 8001))).map (fun s => s.tasks.length) = some 1 := by decide +kernel
  obtain ⟨s, hs, hlen⟩ := Option.map_eq_some_iff.mp hrun
  exact ⟨s, hs, hlen, request_table hs⟩

end App
end NetworkingFinal
