/-
  NetworkingFinal.Client.Destination

  What `download_command` does to the local files.

  The destination is cleared, and its directory made, before the request is sent.
  So a download that fails leaves the files alone only where clearing has nothing
  to do (`LeftAlone`).  One that succeeds leaves what was received at the
  destination and changes nothing else (`Received`), unless the destination ends
  in `..`: then a directory is unpacked over what is there.
-/
import NetworkingFinal.Client.Files
import NetworkingFinal.Py.Overlay

namespace NetworkingFinal
namespace Client

open Py Py.Prog Py.Os Py.PosixPath Py.Struct Py.Archive Ftp

variable {host : Host} {destination : Str} {s : FileTree}

theorem eq_place {p : Str} {q : Path} (h : resolve host.cwd s p = .ok q) : q = host.place p :=
  eq_comps_abspath_of_resolve host.cwd_abs host.cwd_plain h

-- ============================================================================
-- Clearing the destination
-- ============================================================================

/-- The last part of `clearDestination`: `mkdir` of the directory above, unless it is
    there. -/
def makeParent (host : Host) (now : UInt64) (destination : Str) : Prog FileTree Unit := do
  let there ← isdir host.cwd (dirname destination)
  when (!there) (mkdir host.cwd now (dirname destination))

/-- `mkdir` of this path makes a directory. -/
def Makeable (host : Host) (s : FileTree) (p : Str) : Prop :=
  ∃ q, resolve host.cwd s p = .ok q ∧ s.get? q = none ∧ s.Creatable q

theorem makeParent_cases (host : Host) (now : UInt64) (destination : Str) (s : FileTree) :
    (DirAt host.cwd s (dirname destination) ∧ makeParent host now destination s = .ok () s) ∨
    (∃ q v, resolve host.cwd s (dirname destination) = .ok q ∧ mkdirAt now s q = some v ∧
      makeParent host now destination s = .ok () v) ∨
    (¬ Makeable host s (dirname destination) ∧
      ∃ e, makeParent host now destination s = .error e s) := by
  by_cases hdir : DirAt host.cwd s (dirname destination)
  · refine Or.inl ⟨hdir, ?_⟩
    rw [makeParent, bind_of_ok (isdir_of_dirAt hdir)]
    rfl
  · have hrun : makeParent host now destination s = mkdir host.cwd now (dirname destination) s := by
      rw [makeParent, bind_of_ok (isdir_of_not_dirAt hdir)]
      rfl
    rw [hrun]
    refine Or.inr ?_
    cases hmkdir : mkdir host.cwd now (dirname destination) s with
    | ok a v =>
        obtain ⟨q, hres, hmk⟩ := update_ok_iff.mp hmkdir
        exact Or.inl ⟨q, v, hres, hmk, rfl⟩
    | error e v =>
        have hsame : wp (mkdir host.cwd now (dirname destination)) (fun _ _ => True)
            (fun _ t => t = s) s := wp_update (fun _ _ _ _ => trivial) fun _ => rfl
        rw [wp, hmkdir] at hsame
        obtain rfl : v = s := hsame
        refine Or.inr ⟨?_, e, rfl⟩
        rintro ⟨q, hres, hnone, hcreatable⟩
        have hmk : mkdirAt now v q = some (v.insert q (.dir now) hcreatable) := by
          rw [mkdirAt, if_neg (by simp [hnone]), put, dif_pos hcreatable]
        have hok : mkdir host.cwd now (dirname destination) v = .ok () _ :=
          update_ok_iff.mpr ⟨q, hres, hmk⟩
        rw [hmkdir] at hok
        cases hok

/-- What clearing does before it makes the directory above. -/
theorem clearDestination_cases (host : Host) (now : UInt64) (destination : Str) (s : FileTree) :
    (∃ q, resolve host.cwd s destination = .ok q ∧ q ≠ [] ∧
      (FileAt host.cwd s destination ∨ s.isDir q = true ∧ ¬ Stuck destination q) ∧
      clearDestination host now destination s
        = makeParent host now destination (s.removeTree q)) ∨
    (∃ q, resolve host.cwd s destination = .ok q ∧ s.isDir q = true ∧ Stuck destination q ∧
      ¬ FileAt host.cwd s destination ∧
      clearDestination host now destination s = .error .osError (s.removeBelow q)) ∨
    (¬ FileAt host.cwd s destination ∧ ¬ DirAt host.cwd s destination ∧
      clearDestination host now destination s = makeParent host now destination s) := by
  have hsame : ∀ {t u : FileTree} {q q' : Path}, resolve host.cwd t destination = .ok q →
      resolve host.cwd u destination = .ok q' → q' = q := fun h h' => by
    rw [eq_place h, eq_place h']
  have hrest : ∀ t, (isdir host.cwd (dirname destination) >>= fun there =>
      when (!there) (mkdir host.cwd now (dirname destination))) t
        = makeParent host now destination t := fun _ => rfl
  by_cases hfile : FileAt host.cwd s destination
  · obtain ⟨-, q, hres, hisFile⟩ := id hfile
    have hq : q ≠ [] := by
      rintro rfl
      cases hisFile
    have hremove : when true (remove host.cwd destination) s = .ok () (s.removeTree q) :=
      update_ok_iff.mpr ⟨q, hres, if_pos hisFile⟩
    have hgone : ¬ DirAt host.cwd (s.removeTree q) destination := by
      rintro ⟨q', hres', hdir⟩
      rw [hsame hres hres', FileTree.isDir, FileTree.get?_removeTree hq,
        if_pos List.prefix_rfl] at hdir
      cases hdir
    refine Or.inl ⟨q, hres, hq, Or.inl hfile, ?_⟩
    rw [clearDestination, bind_of_ok (isfileTyped_of_fileAt hfile), bind_of_ok hremove,
      bind_of_ok (isdir_of_not_dirAt hgone)]
    exact hrest _
  · have hskip : clearDestination host now destination s =
        (isdir host.cwd destination >>= fun directory => do
          when directory (rmtreeTyped host.cwd destination)
          makeParent host now destination) s := by
      rw [clearDestination, bind_of_ok (isfileTyped_of_not_fileAt hfile)]
      rfl
    rw [hskip]
    by_cases hdir : DirAt host.cwd s destination
    · obtain ⟨q, hres, hisDir⟩ := id hdir
      have hpath : reads (fun t => resolve host.cwd t destination) s = .ok q s := by
        simp [reads, hres]
      rw [bind_of_ok (isdir_of_dirAt hdir)]
      by_cases hstuck : Stuck destination q
      · refine Or.inr (Or.inl ⟨q, hres, hisDir, hstuck, hfile, ?_⟩)
        have hempty : when true (rmtreeTyped host.cwd destination) s
            = .error .osError (s.removeBelow q) := by
          show rmtreeTyped host.cwd destination s = _
          rw [rmtreeTyped, bind_of_ok hpath, if_pos hstuck, bind_apply, updateAt, writes,
            if_pos hisDir]
          rfl
        rw [bind_apply, hempty]
      · refine Or.inl ⟨q, hres, fun hnil => hstuck (Or.inl hnil), Or.inr ⟨hisDir, hstuck⟩, ?_⟩
        have hremove : when true (rmtreeTyped host.cwd destination) s
            = .ok () (s.removeTree q) := by
          show rmtreeTyped host.cwd destination s = _
          rw [rmtreeTyped, bind_of_ok hpath, if_neg hstuck, updateAt, writes, if_pos hisDir]
        rw [bind_of_ok hremove]
    · refine Or.inr (Or.inr ⟨hfile, hdir, ?_⟩)
      rw [bind_of_ok (isdir_of_not_dirAt hdir)]
      rfl

-- ============================================================================
-- Failed downloads
-- ============================================================================

/-- Clearing the destination changes nothing: no file is there; a directory that is
    there is empty and cannot be removed; and where nothing is there, the directory above
    is there already or cannot be made. -/
structure LeftAlone (host : Host) (s : FileTree) (destination : Str) : Prop where
  file : ¬ FileAt host.cwd s destination
  directory : ∀ q, resolve host.cwd s destination = .ok q → s.isDir q = true →
    Stuck destination q ∧ ∀ x, x ≠ [] → s.get? (q ++ x) = none
  parent : ¬ DirAt host.cwd s destination → ¬ Makeable host s (dirname destination)

/-- What `makeParent` leaves at a path: what was there, or a new directory. -/
theorem get?_makeParent (host : Host) (now : UInt64) (destination : Str) (s : FileTree)
    (p : Path) : (final (makeParent host now destination s)).get? p = s.get? p ∨
      s.get? p = none ∧
        (final (makeParent host now destination s)).get? p = some (.dir now) := by
  rcases makeParent_cases host now destination s with ⟨-, hrun⟩ | ⟨q, v, -, hmk, hrun⟩ |
    ⟨-, e, hrun⟩
  · exact Or.inl (by rw [hrun]; rfl)
  · rw [hrun, final_ok, get?_of_mkdirAt hmk]
    split
    · next hp => exact Or.inr ⟨hp ▸ (put_of_mkdirAt hmk).1, rfl⟩
    · exact Or.inl rfl
  · exact Or.inl (by rw [hrun]; rfl)

/-- What clears nothing at a second in which no directory of that second is at the
    destination leaves the destination alone. -/
theorem leftAlone_of_unchanged {now : UInt64}
    (hnow : s.get? (host.place destination) ≠ some (.dir now))
    (hsame : ∀ p, (final (clearDestination host now destination s)).get? p = s.get? p) :
    LeftAlone host s destination := by
  rcases clearDestination_cases host now destination s with ⟨q, hres, hq, hthere, hrun⟩ |
    ⟨q, hres, hisDir, hstuck, hfile, hrun⟩ | ⟨hfile, hdir, hrun⟩
  · exfalso
    rw [← eq_place hres] at hnow
    have hgone : (s.removeTree q).get? q = none := by
      rw [FileTree.get?_removeTree hq, if_pos List.prefix_rfl]
    have hentry : s.get? q ≠ none := by
      rcases hthere with ⟨-, q', hres', hisFile⟩ | ⟨hisDir, -⟩
      · rw [hres, Except.ok.injEq] at hres'
        exact FileTree.get?_ne_none_of_isFile (hres' ▸ hisFile)
      · exact FileTree.get?_ne_none_of_isDir hisDir
    have hq := hsame q
    rw [hrun] at hq
    rcases get?_makeParent host now destination (s.removeTree q) q with hget | ⟨-, hget⟩
    · exact hentry (by rw [← hq, hget, hgone])
    · exact hnow (by rw [← hq, hget])
  · refine ⟨hfile, fun q' hres' _ => ?_, fun hnot => absurd ⟨q, hres, hisDir⟩ hnot⟩
    rw [hres, Except.ok.injEq] at hres'
    subst hres'
    refine ⟨hstuck, fun x hx => ?_⟩
    rw [← hsame (q ++ x), hrun, final_error, FileTree.get?_removeBelow,
      if_pos ⟨List.prefix_append q x, by simpa using hx⟩]
  · refine ⟨hfile, fun q hres hisDir => absurd ⟨q, hres, hisDir⟩ hdir, fun _ => ?_⟩
    rintro ⟨q, hres, hnone, hcreatable⟩
    rcases makeParent_cases host now destination s with ⟨⟨q', hres', hisDir⟩, -⟩ |
      ⟨q', v, hres', hmk, hrun'⟩ | ⟨hnot, -⟩
    · rw [hres, Except.ok.injEq] at hres'
      rw [← hres'] at hisDir
      exact FileTree.get?_ne_none_of_isDir hisDir hnone
    · have hmade := hsame q'
      rw [hrun, hrun', final_ok, get?_of_mkdirAt hmk, if_pos rfl, (put_of_mkdirAt hmk).1] at hmade
      cases hmade
    · exact hnot ⟨q, hres, hnone, hcreatable⟩

theorem LeftAlone.unchanged (h : LeftAlone host s destination) (now : UInt64) (p : Path) :
    (final (clearDestination host now destination s)).get? p = s.get? p := by
  rcases clearDestination_cases host now destination s with ⟨q, hres, hq, hthere, hrun⟩ |
    ⟨q, hres, hisDir, hstuck, hfile, hrun⟩ | ⟨hfile, hdir, hrun⟩
  · rcases hthere with hfile | ⟨hisDir, hnot⟩
    · exact absurd hfile h.file
    · exact absurd (h.directory q hres hisDir).1 hnot
  · rw [hrun, final_error, FileTree.get?_removeBelow]
    split
    · next hbelow =>
        obtain ⟨⟨x, rfl⟩, hx⟩ := hbelow
        exact ((h.directory q hres hisDir).2 x (by simpa using hx)).symm
    · rfl
  · rw [hrun]
    rcases makeParent_cases host now destination s with ⟨-, hrun'⟩ | ⟨q, v, hres, hmk, -⟩ |
      ⟨-, e, hrun'⟩
    · rw [hrun']
      rfl
    · obtain ⟨hnone, hput⟩ := put_of_mkdirAt hmk
      exact absurd ⟨q, hres, hnone, (put_eq_some_iff.mp hput).1⟩ (h.parent hdir)
    · rw [hrun']
      rfl

/-- Clearing the destination leaves every path as it was exactly in these cases.  At a
    reading of the clock a directory could be made again as it was, so all readings
    are asked for. -/
theorem clearDestination_unchanged_iff :
    (∀ now p, (final (clearDestination host now destination s)).get? p = s.get? p) ↔
      LeftAlone host s destination := by
  refine ⟨fun h => ?_, fun h now p => h.unchanged now p⟩
  -- a reading of the clock that differs from the directory's time
  by_cases hzero : s.get? (host.place destination) = some (.dir 0)
  · exact leftAlone_of_unchanged (by simp [hzero]) (h 1)
  · exact leftAlone_of_unchanged hzero (h 0)

-- ============================================================================
-- The cleared destination
-- ============================================================================

/-- Where the last component leads from the directory above: to an entry of it, to the
    directory itself, or one up. -/
theorem last_cases (cwd : Str) {parent : Path} (hname : dirname destination ≠ []) :
    (∃ c, Plain c ∧ basename destination = c ∧
      ∀ u, resolve cwd u (dirname destination) = .ok parent →
        resolve cwd u destination = .ok (parent ++ [c])) ∨
    ((basename destination = [] ∨ basename destination = ['.']) ∧
      ∀ u, resolve cwd u (dirname destination) = .ok parent → u.isDir parent = true →
        resolve cwd u destination = .ok parent) ∨
    (basename destination = ['.', '.'] ∧
      ∀ u, resolve cwd u (dirname destination) = .ok parent → u.isDir parent = true →
        resolve cwd u destination = .ok parent.dropLast) := by
  have hwalk : ∀ u, resolve cwd u (dirname destination) = .ok parent →
      resolve cwd u destination = walkFrom u parent (comps (basename destination)) := by
    intro u hu
    rw [resolve_eq_dirname u hname, hu]
    rfl
  have hslash := slash_notMem_basename destination
  by_cases hnil : basename destination = []
  · refine Or.inr (Or.inl ⟨Or.inl hnil, fun u hu _ => ?_⟩)
    rw [hwalk u hu, hnil, comps_nil, walkFrom]
  · have hcomps := comps_of_notMem hslash hnil
    by_cases hdot : basename destination = ['.']
    · refine Or.inr (Or.inl ⟨Or.inr hdot, fun u hu hdir => ?_⟩)
      rw [hwalk u hu, hcomps, walkFrom, if_pos hdot, if_pos hdir, walkFrom]
    · by_cases hdots : basename destination = ['.', '.']
      · refine Or.inr (Or.inr ⟨hdots, fun u hu hdir => ?_⟩)
        rw [hwalk u hu, hcomps, walkFrom, if_neg hdot, if_pos hdots, if_pos hdir, walkFrom]
      · refine Or.inl ⟨_, ⟨hnil, hslash, hdot, hdots⟩, rfl, fun u hu => ?_⟩
        rw [hwalk u hu, hcomps, walkFrom, if_neg hdot, if_neg hdots, walkFrom]

theorem dirname_ne_nil_of_resolve {cwd : Str} {u : FileTree} {q : Path}
    (h : resolve cwd u (dirname destination) = .ok q) : dirname destination ≠ [] := by
  intro hnil
  rw [hnil] at h
  cases h

/-- The directory above, when it is there or was made. -/
theorem of_makeParent {now : UInt64} {v : FileTree}
    (h : makeParent host now destination s = .ok () v) :
    resolve host.cwd s (dirname destination) = .ok (host.place (dirname destination)) ∧
    resolve host.cwd v (dirname destination) = .ok (host.place (dirname destination)) ∧
    v.isDir (host.place (dirname destination)) = true ∧
    (v = s ∨ mkdirAt now s (host.place (dirname destination)) = some v) := by
  rcases makeParent_cases host now destination s with ⟨⟨q, hres, hdir⟩, hrun⟩ |
    ⟨q, u, hres, hmk, hrun⟩ | ⟨-, e, hrun⟩
  · rw [hrun] at h
    cases h
    rw [← eq_place hres]
    exact ⟨hres, hres, hdir, Or.inl rfl⟩
  · rw [hrun] at h
    cases h
    rw [← eq_place hres]
    exact ⟨hres, resolve_of_kindsStay (kindsStay_mkdirAt hmk) hres, isDir_of_mkdirAt hmk,
      Or.inr hmk⟩
  · rw [hrun] at h
    cases h

/-- What the download finds once the destination is cleared: nothing at a new place, the
    directory it asked for, new and empty, or, one above a directory that was made, what
    was there. -/
inductive Cleared (host : Host) (s : FileTree) (destination : Str) (v : FileTree) : Prop
  | fresh {c : Str} (name : basename destination ≠ ['.', '.'])
      (place : host.place destination = host.place (dirname destination) ++ [c])
      (nothing : v.get? (host.place destination) = none) : Cleared host s destination v
  | made (name : basename destination ≠ ['.', '.'])
      (place : host.place destination = host.place (dirname destination))
      (nonroot : host.place destination ≠ [])
      (nothing : ∀ x, x ≠ [] → v.get? (host.place destination ++ x) = none) :
      Cleared host s destination v
  | above {now : UInt64} (name : basename destination = ['.', '.'])
      (place : host.place destination = (host.place (dirname destination)).dropLast)
      (made : mkdirAt now s (host.place (dirname destination)) = some v) :
      Cleared host s destination v

/-- The tree between the two parts of clearing: as it was, where neither a file nor a
    directory is at the destination, or without what was there. -/
inductive Emptied (host : Host) (s : FileTree) (destination : Str) : FileTree → Prop
  | untouched (file : ¬ FileAt host.cwd s destination)
      (directory : ¬ DirAt host.cwd s destination) : Emptied host s destination s
  | removed (resolved : resolve host.cwd s destination = .ok (host.place destination))
      (nonroot : host.place destination ≠ [])
      (removable : s.isFile (host.place destination) = true ∨ ¬ endsInDots destination = true) :
      Emptied host s destination (s.removeTree (host.place destination))

theorem emptied_of_clearDestination {now : UInt64} {v : FileTree}
    (h : clearDestination host now destination s = .ok () v) :
    ∃ w, makeParent host now destination w = .ok () v ∧ Emptied host s destination w := by
  rcases clearDestination_cases host now destination s with ⟨q, hres, hq, hthere, hrun⟩ |
    ⟨q, -, -, -, -, hrun⟩ | ⟨hfile, hdir, hrun⟩
  · rw [hrun] at h
    have hplace := eq_place hres
    subst hplace
    refine ⟨_, h, .removed hres hq ?_⟩
    rcases hthere with ⟨-, q', hres', hisFile⟩ | ⟨-, hstuck⟩
    · exact Or.inl (eq_place hres' ▸ hisFile)
    · exact Or.inr fun hdots => hstuck (Or.inr hdots)
  · rw [hrun] at h
    cases h
  · rw [hrun] at h
    exact ⟨s, h, .untouched hfile hdir⟩

namespace Emptied

variable {w : FileTree}

theorem get?_elsewhere (h : Emptied host s destination w) {p : Path}
    (hp : ¬ host.place destination <+: p) : w.get? p = s.get? p := by
  cases h with
  | untouched => rfl
  | removed _ hq => rw [FileTree.get?_removeTree hq, if_neg hp]

/-- No directory is at the destination any more. -/
theorem not_dirAt (h : Emptied host s destination w) : ¬ DirAt host.cwd w destination := by
  cases h with
  | untouched _ hdir => exact hdir
  | removed _ hq =>
      rintro ⟨q, hres, hisDir⟩
      rw [eq_place hres, FileTree.isDir, FileTree.get?_removeTree hq, if_pos List.prefix_rfl]
        at hisDir
      cases hisDir

/-- Nothing is at a destination that does not end in a slash. -/
theorem get?_place (h : Emptied host s destination w) (hbase : basename destination ≠ [])
    (hres : resolve host.cwd w destination = .ok (host.place destination)) :
    w.get? (host.place destination) = none := by
  cases h with
  | untouched hfile hdir =>
      by_contra hthere
      refine hdir ⟨_, hres, FileTree.isDir_of_get? hthere ?_⟩
      rw [← Bool.not_eq_true]
      refine fun hisFile => hfile ⟨fun hslash => ?_, _, hres, hisFile⟩
      have hne : destination ≠ [] := by
        rintro rfl
        cases hslash
      rw [getLast?_eq_slash_iff hne] at hslash
      exact hbase hslash
  | removed _ hq => rw [FileTree.get?_removeTree hq, if_pos List.prefix_rfl]

/-- What lies one up is not removed: it is a directory, and the path ends in dots. -/
theorem eq_of_dots (h : Emptied host s destination w) (hname : dirname destination ≠ [])
    (hbase : basename destination = ['.', '.']) : w = s := by
  have hcomps := comps_of_notMem (slash_notMem_basename destination) (by rw [hbase]; decide)
  cases h with
  | untouched => rfl
  | removed hres _ hremovable =>
      exfalso
      rcases hremovable with hisFile | hdots
      · rw [resolve_eq_dirname s hname] at hres
        obtain ⟨d, -, hlast⟩ := except_bind_ok_iff.mp hres
        rw [hcomps, hbase, walkFrom, if_neg (by decide), if_pos rfl] at hlast
        split at hlast
        · next hisDir =>
            rw [walkFrom, Except.ok.injEq] at hlast
            rw [← hlast, FileTree.isFile_eq_false (FileTree.isDir_dropLast hisDir)] at hisFile
            cases hisFile
        · cases hlast
      · refine hdots ?_
        rw [endsInDots, (comps_dirname hname).1, hcomps, hbase, List.getLast?_concat]
        decide

/-- With the directory above, the destination is cleared. -/
theorem cleared {now : UInt64} {v : FileTree} (h : Emptied host s destination w)
    (hmake : makeParent host now destination w = .ok () v) : Cleared host s destination v := by
  obtain ⟨hresw, hresv, hdir, hv⟩ := of_makeParent hmake
  have hname := dirname_ne_nil_of_resolve hresw
  rcases last_cases host.cwd hname with ⟨c, hc, hbase, hlast⟩ | ⟨hbase, hlast⟩ | ⟨hbase, hlast⟩
  · -- a name in the directory above
    have hplace := eq_place (hlast w hresw)
    refine .fresh (hbase ▸ hc.2.2.2) hplace.symm ?_
    have hnothing := h.get?_place (hbase ▸ hc.1) (hplace ▸ hlast w hresw)
    rcases hv with rfl | hmk
    · exact hnothing
    · rw [get?_of_mkdirAt hmk, if_neg (by rw [← hplace]; simp), hnothing]
  · -- the directory above itself
    have hplace := eq_place (hlast v hresv hdir)
    rcases hv with rfl | hmk
    · exact (h.not_dirAt ⟨_, hlast v hresv hdir, hdir⟩).elim
    · obtain ⟨hnone, hput⟩ := put_of_mkdirAt hmk
      refine .made (by rcases hbase with hbase | hbase <;> simp [hbase]) hplace.symm ?_
        fun x hx => ?_
      · rw [← hplace]
        exact (put_eq_some_iff.mp hput).1.1
      · rw [← hplace, get?_of_mkdirAt hmk, if_neg (by simpa using hx)]
        by_contra hthere
        exact FileTree.get?_ne_none_of_isDir
          (FileTree.isDir_of_prefix (List.prefix_append _ x) (by simpa using hx) hthere) hnone
  · -- one up: only a new directory can be above
    have hplace := eq_place (hlast v hresv hdir)
    rcases hv with rfl | hmk
    · exact (h.not_dirAt ⟨_, hlast v hresv hdir, FileTree.isDir_dropLast hdir⟩).elim
    · exact .above hbase hplace.symm (h.eq_of_dots hname hbase ▸ hmk)

end Emptied

theorem cleared_of_ok {now : UInt64} {v : FileTree}
    (h : clearDestination host now destination s = .ok () v) :
    Cleared host s destination v ∧
      resolve host.cwd v (dirname destination) = .ok (host.place (dirname destination)) ∧
      v.isDir (host.place (dirname destination)) = true ∧
      ∀ p, ¬ host.place destination <+: p →
        v.get? p = s.get? p ∨ p = host.place (dirname destination) ∧ s.get? p = none := by
  obtain ⟨w, hmake, hw⟩ := emptied_of_clearDestination h
  obtain ⟨-, hresv, hdir, hv⟩ := of_makeParent hmake
  refine ⟨hw.cleared hmake, hresv, hdir, fun p hp => ?_⟩
  rcases hv with rfl | hmk
  · exact Or.inl (hw.get?_elsewhere hp)
  · rw [get?_of_mkdirAt hmk]
    split
    · next hparent =>
        refine Or.inr ⟨hparent, ?_⟩
        rw [← hw.get?_elsewhere hp, hparent, (put_of_mkdirAt hmk).1]
    · exact Or.inl (hw.get?_elsewhere hp)

-- ============================================================================
-- Successful downloads
-- ============================================================================

/-- What the data of a download is: the content of a file, or the members of the archive
    of a directory. -/
inductive Payload where
  | file (content : Bytes)
  | directory (members : List ZipFile.Member)

def Host.payload (host : Host) (data : Bytes) : Except Exn Payload := do
  let flag ← unpackFrom .native [.bool] data 0
  if flag ≠ [0] then
    return .file (data.drop (calcsize .native [.bool]))
  else
    match host.zipMembers (data.drop (calcsize .native [.bool])) with
    | none => throw .badZipFile
    | some members => return .directory members

/-- How a payload is saved. -/
def Payload.save (host : Host) (now : UInt64) (destination : Str) : Payload → Prog FileTree Unit
  | .file content => appendFile host.cwd now destination content
  | .directory members => ZipFile.extractall host.cwd now destination members

theorem saveDownload_eq (host : Host) (now : UInt64) (destination : Str) (data : Bytes) :
    saveDownload host now destination data =
      lift (host.payload data) >>= fun payload => payload.save host now destination := by
  rw [saveDownload, Host.payload]
  cases hflag : unpackFrom .native [.bool] data 0 with
  | error e => rfl
  | ok flag =>
      have hread : (reads fun _ => .ok flag : Prog FileTree (List Nat)) = pure flag := rfl
      rw [hread, pure_bind, except_ok_bind]
      by_cases hfile : flag ≠ [0]
      · rw [if_pos hfile, if_pos hfile]
        rfl
      · rw [if_neg hfile, if_neg hfile]
        cases host.zipMembers (data.drop (calcsize .native [.bool])) <;> rfl

/-- What lies at the destination is the payload.  Directories that lead to the one above
    the destination are not part of it. -/
def Payload.Holds (q parent : Path) : Payload → FileTree → Prop
  | .file content, t => t.fileAt q = some content
  | .directory members, t =>
      (∀ x, t.fileAt (q ++ x) = ZipFile.fileIn members x) ∧
        ∀ x, t.isDir (q ++ x) = true ↔ ZipFile.DirIn members x ∨ q ++ x <+: parent

/-- The destination holds what was received, and nothing else has changed except a created
    parent directory. -/
structure Received (host : Host) (s : FileTree) (destination : Str) (payload : Payload)
    (t : FileTree) : Prop where
  holds : payload.Holds (host.place destination) (host.place (dirname destination)) t
  elsewhere : ∀ p, ¬ host.place destination <+: p → t.get? p = s.get? p ∨
    p = host.place (dirname destination) ∧ s.get? p = none ∧ t.isDir p = true

/-- The destination does not end in `..`, or the archive has all that is there. -/
def Covers (host : Host) (s : FileTree) (destination : Str) : Payload → Prop
  | .file _ => True
  | .directory members => basename destination = ['.', '.'] → ∀ x,
      (s.isFile (host.place destination ++ x) = true → ZipFile.fileIn members x ≠ none) ∧
      (s.isDir (host.place destination ++ x) = true → ZipFile.DirIn members x ∨
        host.place destination ++ x <+: host.place (dirname destination))

/-- Below a cleared destination there are no files, and only the directories that lead to
    the one above it. -/
theorem nothing_below {v : FileTree} (hkind : Cleared host s destination v)
    (hname : basename destination ≠ ['.', '.'])
    (hdir : v.isDir (host.place (dirname destination)) = true) (x : Path) :
    v.fileAt (host.place destination ++ x) = none ∧
      (v.isDir (host.place destination ++ x) = true ↔
        host.place destination ++ x <+: host.place (dirname destination)) := by
  rcases hkind with ⟨-, hplace, hnothing⟩ | ⟨-, hplace, -, hnothing⟩ | ⟨hdots, -⟩
  · have hnone : v.get? (host.place destination ++ x) = none := by
      by_contra hthere
      by_cases hx : x = []
      · rw [hx, List.append_nil] at hthere
        exact hthere hnothing
      · exact FileTree.get?_ne_none_of_isDir
          (FileTree.isDir_of_prefix (List.prefix_append _ x) (by simpa using hx) hthere) hnothing
    refine ⟨FileTree.fileAt_eq_none_of_get? hnone, fun hisDir => ?_, fun hpre => ?_⟩
    · exact (FileTree.get?_ne_none_of_isDir hisDir hnone).elim
    · have hlen := hpre.length_le
      rw [hplace, List.length_append, List.length_append] at hlen
      simp at hlen
      omega
  · by_cases hx : x = []
    · rw [hx, List.append_nil, hplace]
      exact ⟨FileTree.fileAt_eq_none_of_isDir hdir, fun _ => List.prefix_rfl, fun _ => hdir⟩
    · refine ⟨FileTree.fileAt_eq_none_of_get? (hnothing x hx), fun hisDir => ?_, fun hpre => ?_⟩
      · exact (FileTree.get?_ne_none_of_isDir hisDir (hnothing x hx)).elim
      · have hlen := hpre.length_le
        rw [← hplace, List.length_append] at hlen
        exact absurd (List.length_eq_zero_iff.mp (by omega)) hx
  · exact absurd hdots hname

/-- One above a directory that was made, an archive is exactly what is there afterwards
    if it has all that was there. -/
theorem holds_above_iff {now : UInt64} {q parent : Path} {members : List ZipFile.Member}
    {v t : FileTree} (hmade : mkdirAt now s parent = some v)
    (hover : ZipFile.Overlaid q members v t) :
    (Payload.directory members).Holds q parent t ↔ ∀ x,
      (s.isFile (q ++ x) = true → ZipFile.fileIn members x ≠ none) ∧
      (s.isDir (q ++ x) = true → ZipFile.DirIn members x ∨ q ++ x <+: parent) := by
  have hfiles : ∀ x, t.fileAt (q ++ x) = (ZipFile.fileIn members x).or (s.fileAt (q ++ x)) :=
    fun x => by rw [hover.files, filesStay_mkdirAt hmade]
  have hstay := kindsStay_mkdirAt hmade
  have hdirs : ∀ p, v.isDir p = true → s.isDir p = true ∨ p = parent := by
    intro p hp
    rw [FileTree.isDir, get?_of_mkdirAt hmade] at hp
    by_cases hparent : p = parent
    · exact Or.inr hparent
    · rw [if_neg hparent] at hp
      exact Or.inl hp
  constructor
  · rintro ⟨hheld, hdirheld⟩ x
    refine ⟨fun hisFile hnone => ?_, fun hisDir => ?_⟩
    · rw [← ZipFile.fileAt_ne_none_iff] at hisFile
      refine hisFile ?_
      have hsame := (hfiles x).symm.trans (hheld x)
      rwa [hnone, Option.none_or] at hsame
    · exact (hdirheld x).mp ((hover.dirs x).mpr (Or.inl ((hstay _).1 hisDir)))
  · intro h
    refine ⟨fun x => ?_, fun x => ?_⟩
    · rw [hfiles]
      cases hin : ZipFile.fileIn members x with
      | some data => rfl
      | none =>
          rw [Option.none_or]
          by_contra hthere
          exact (h x).1 (ZipFile.fileAt_ne_none_iff.mp hthere) hin
    · rw [hover.dirs]
      constructor
      · rintro (hisDir | hin)
        · rcases hdirs _ hisDir with hisDir | hparent
          · exact (h x).2 hisDir
          · exact Or.inr (hparent ▸ List.prefix_rfl)
        · exact Or.inl hin
      · rintro (hin | hpre)
        · exact Or.inr hin
        · have hparent := isDir_of_mkdirAt hmade
          by_cases hx : q ++ x = parent
          · exact Or.inl (hx ▸ hparent)
          · exact Or.inl (FileTree.isDir_of_prefix hpre hx (FileTree.get?_ne_none_of_isDir hparent))

/-- What a save that ended well asks of the tree it began with, and what it leaves. -/
theorem of_save {now : UInt64} {payload : Payload} {v t : FileTree}
    (hres : resolve host.cwd v (dirname destination) = .ok (host.place (dirname destination)))
    (hdir : v.isDir (host.place (dirname destination)) = true)
    (habove : v.isDir (host.place destination).dropLast = true)
    (h : payload.save host now destination v = .ok () t) :
    (∀ p, ¬ host.place destination <+: p → t.get? p = v.get? p) ∧
      match payload with
      | .file content => v.isDir (host.place destination) = false ∧
          t.fileAt (host.place destination)
            = some ((v.fileAt (host.place destination)).getD [] ++ content)
      | .directory members => ZipFile.Overlaid (host.place destination) members v t := by
  cases payload with
  | file content =>
      obtain ⟨q, hq, hput⟩ := update_ok_iff.mp h
      rw [eq_place hq] at hput
      obtain ⟨⟨-, -, hnot, -⟩, -⟩ := put_eq_some_iff.mp hput
      refine ⟨fun p hp => ?_, hnot, ?_⟩
      · rw [get?_of_put hput, if_neg]
        rintro rfl
        exact hp List.prefix_rfl
      · rw [fileAt_of_put hput, if_pos rfl]
  | directory members =>
      have hname : dirname destination ≠ [] := by
        intro hnil
        rw [hnil] at hres
        cases hres
      have hne : destination ≠ [] := by
        rintro rfl
        exact hname rfl
      have hcwd : isabs destination = false → v.isDir (comps host.cwd) = true := by
        intro hrel
        rw [(comps_dirname hname).2] at hrel
        rw [resolve, if_neg hname, if_neg (by simp [hrel])] at hres
        exact isDir_of_walkFrom hres hdir
      have hover := (ZipFile.overlaid_extractall host.cwd_abs host.cwd_plain hne hcwd habove h).1
      exact ⟨hover.outside, hover⟩

/-- A download that succeeded left what was received, and changed nothing else, exactly if
    the destination does not end in `..` or the archive has all that was there. -/
theorem received_iff {now now' : UInt64} {payload : Payload} {v t : FileTree}
    (hclear : clearDestination host now destination s = .ok () v)
    (hsave : payload.save host now' destination v = .ok () t) :
    Received host s destination payload t ↔ Covers host s destination payload := by
  obtain ⟨hkind, hres, hdir, houtside⟩ := cleared_of_ok hclear
  have habove : v.isDir (host.place destination).dropLast = true := by
    rcases hkind with ⟨-, hplace, -⟩ | ⟨-, hplace, -, -⟩ | ⟨-, hplace, -⟩
    · rwa [hplace, List.dropLast_concat]
    · rw [hplace]
      exact FileTree.isDir_dropLast hdir
    · rw [hplace]
      exact FileTree.isDir_dropLast (FileTree.isDir_dropLast hdir)
  obtain ⟨houtside', hpayload⟩ := of_save hres hdir habove hsave
  have helsewhere : ∀ p, ¬ host.place destination <+: p → t.get? p = s.get? p ∨
      p = host.place (dirname destination) ∧ s.get? p = none ∧ t.isDir p = true := by
    intro p hp
    rw [houtside' p hp]
    refine (houtside p hp).imp_right fun ⟨hparent, hnone⟩ => ⟨hparent, hnone, ?_⟩
    rw [FileTree.isDir, houtside' p hp, hparent]
    exact hdir
  suffices hholds : payload.Holds (host.place destination) (host.place (dirname destination)) t ↔
      Covers host s destination payload from
    ⟨fun h => hholds.mp h.holds, fun h => ⟨hholds.mpr h, helsewhere⟩⟩
  cases payload with
  | file content =>
      obtain ⟨hnot, hcontent⟩ := hpayload
      refine ⟨fun _ => trivial, fun _ => ?_⟩
      have hnone : v.fileAt (host.place destination) = none := by
        rcases hkind with ⟨-, -, hnothing⟩ | ⟨-, hplace, -, -⟩ | ⟨-, hplace, -⟩
        · exact FileTree.fileAt_eq_none_of_get? hnothing
        · rw [hplace, hdir] at hnot
          cases hnot
        · rw [hplace, FileTree.isDir_dropLast hdir] at hnot
          cases hnot
      rw [Payload.Holds, hcontent, hnone]
      rfl
  | directory members =>
      have hover : ZipFile.Overlaid (host.place destination) members v t := hpayload
      by_cases hname : basename destination = ['.', '.']
      · rcases hkind with ⟨hnot, -⟩ | ⟨hnot, -⟩ | ⟨-, -, hmade⟩
        · exact absurd hname hnot
        · exact absurd hname hnot
        · exact (holds_above_iff hmade hover).trans ⟨fun h _ => h, fun h => h hname⟩
      · refine ⟨fun _ hdots => absurd hdots hname, fun _ => ⟨fun x => ?_, fun x => ?_⟩⟩
        · rw [hover.files, (nothing_below hkind hname hdir x).1, Option.or_none]
        · rw [hover.dirs, (nothing_below hkind hname hdir x).2, or_comm]

-- ============================================================================
-- The whole command
-- ============================================================================

section Command

variable {now now' : UInt64} {options : Options} {targetName : Str} {net : Network}

/-- A failed exchange leaves the tree as clearing left it. -/
theorem final_of_failed (h : ∀ data, net.exchange options targetName ≠ .ok (some data)) :
    final (downloadCommand host now now' options targetName destination net s)
      = final (clearDestination host now destination s) := by
  rw [downloadCommand, bind_apply]
  cases clearDestination host now destination s with
  | error e v => rfl
  | ok a v =>
      cases hexchange : net.exchange options targetName with
      | error e => rfl
      | ok o =>
          cases o with
          | none => rfl
          | some data => exact absurd hexchange (h data)

/-- The parts of a run that ended well with data. -/
theorem of_downloadCommand {data : Bytes} {t : FileTree}
    (hexchange : net.exchange options targetName = .ok (some data))
    (h : downloadCommand host now now' options targetName destination net s = .ok () t) :
    ∃ payload v, host.payload data = .ok payload ∧
      clearDestination host now destination s = .ok () v ∧
      payload.save host now' destination v = .ok () t := by
  obtain ⟨_, v, hclear, hrest⟩ := bind_ok_iff.mp h
  rw [lift_ok_bind hexchange] at hrest
  simp only [saveDownload_eq] at hrest
  obtain ⟨payload, v', hpayload, hsave⟩ := bind_ok_iff.mp hrest
  cases hdata : host.payload data with
  | error e =>
      rw [hdata] at hpayload
      cases hpayload
  | ok payload' =>
      rw [hdata] at hpayload
      cases hpayload
      exact ⟨payload, v, rfl, hclear, hsave⟩

end Command

/-- When the exchange fails, the local files are as they were exactly if clearing the
    destination had nothing to do.  When the command succeeds, the destination holds what
    was received and nothing else has changed but a created parent directory, exactly
    unless the destination ends in `..` and the archive lacks something that was there. -/
theorem downloadCommand_leaves_iff (host : Host) (s : FileTree) (options : Options)
    (targetName destination : Str) (net : Network) :
    ((∀ data, net.exchange options targetName ≠ .ok (some data)) →
      ((∀ now now' p, (final (downloadCommand host now now' options targetName destination net s)).get?
        p = s.get? p) ↔ LeftAlone host s destination)) ∧
    ∀ data, net.exchange options targetName = .ok (some data) →
      ∀ now now' t, downloadCommand host now now' options targetName destination net s = .ok () t →
        ∃ payload, host.payload data = .ok payload ∧
          (Received host s destination payload t ↔ Covers host s destination payload) := by
  refine ⟨fun hfailed => ?_, fun data hexchange now now' t hrun => ?_⟩
  · simp only [final_of_failed hfailed]
    rw [← clearDestination_unchanged_iff]
    exact ⟨fun h now => h now 0, fun h now _ => h now⟩
  · obtain ⟨payload, v, hpayload, hclear, hsave⟩ := of_downloadCommand hexchange hrun
    exact ⟨payload, hpayload, received_iff hclear hsave⟩

-- ============================================================================
-- One home directory
-- ============================================================================

theorem home_abs : PosixPath.isabs "/home".toList = true := rfl

theorem home_plain : ∀ c ∈ PosixPath.comps "/home".toList, PosixPath.Plain c := by decide

/-- A client in `/home`, where nothing is an archive. -/
def homeHost : Host where
  cwd := "/home".toList
  cwd_abs := home_abs
  cwd_plain := home_plain
  zipMembers := fun _ => none
  zipBytes := fun _ => []

/-- `/home` with the file `f`. -/
def homeTree : FileTree :=
  final ((do
    makedirs homeHost.cwd 0 "/home".toList
    writeFile homeHost.cwd 0 "f".toList (encode "old".toList)) FileTree.empty)

/-- No datagram arrives. -/
def silent : Network where
  sendto _ := .ok ()
  recvfrom := .error .osError
  downloadData _ := .error .osError

/-- The answer of a server that has the file `yo`, and its data. -/
def answering : Network where
  sendto _ := .ok ()
  recvfrom := .ok (Pocket.datagram
    { basicLayer := ⟨7, .response, .download⟩, responseLayer := some ⟨true, [], 3, 1, 1000⟩ })
  downloadData _ := .ok (1 :: encode "yo".toList)

theorem leftAlone_out : LeftAlone homeHost homeTree "./out".toList := by
  have hres : resolve homeHost.cwd homeTree "./out".toList = .ok ["home".toList, "out".toList] := by
    decide +kernel
  have hparent : resolve homeHost.cwd homeTree (dirname "./out".toList) = .ok ["home".toList] := by
    decide +kernel
  have hnone : homeTree.get? ["home".toList, "out".toList] = none := by decide +kernel
  refine ⟨?_, fun q hq hdir => ?_, fun _ => ?_⟩
  · rintro ⟨-, q, hq, hfile⟩
    rw [hres, Except.ok.injEq] at hq
    exact FileTree.get?_ne_none_of_isFile (hq ▸ hfile) hnone
  · rw [hres, Except.ok.injEq] at hq
    exact (FileTree.get?_ne_none_of_isDir (hq ▸ hdir) hnone).elim
  · rintro ⟨q, hq, hmissing, -⟩
    rw [hparent, Except.ok.injEq] at hq
    rw [← hq] at hmissing
    exact absurd hmissing (by decide +kernel)

/-- At a new name in a directory that is there, a silent server leaves everything, and an
    answer leaves the file. -/
theorem downloadCommand_leaves_iff_out :
    (∀ now now' p, (final (downloadCommand homeHost now now' {} "yo".toList "./out".toList silent
      homeTree)).get? p = homeTree.get? p) ∧
    ∃ t, downloadCommand homeHost 0 0 {} "yo".toList "./out".toList answering homeTree = .ok () t ∧
      Received homeHost homeTree "./out".toList (.file (encode "yo".toList)) t := by
  constructor
  · have hsilent : ∀ data, silent.exchange {} "yo".toList ≠ .ok (some data) := by
      have herror : silent.exchange {} "yo".toList = .error .osError := by decide +kernel
      rw [herror]
      exact nofun
    exact ((downloadCommand_leaves_iff homeHost homeTree {} _ _ silent).1 hsilent).mpr leftAlone_out
  · have hdata : answering.exchange {} "yo".toList = .ok (some (1 :: encode "yo".toList)) := by
      decide +kernel
    have hok : (match downloadCommand homeHost 0 0 {} "yo".toList "./out".toList answering homeTree with
        | .ok _ _ => true
        | .error _ _ => false) = true := by decide +kernel
    split at hok
    · next t hrun =>
        obtain ⟨payload, hpayload, hiff⟩ := (downloadCommand_leaves_iff homeHost homeTree {} _ _
          answering).2 _ hdata 0 0 t hrun
        have hfile : homeHost.payload (1 :: encode "yo".toList)
            = .ok (.file (encode "yo".toList)) := rfl
        rw [hfile, Except.ok.injEq] at hpayload
        subst hpayload
        exact ⟨t, hrun, hiff.mpr trivial⟩
    · cases hok

/-- The file that was at the destination is gone when no datagram arrives. -/
theorem not_downloadCommand_leaves :
    ¬ ∀ (host : Host) (s : FileTree) (options : Options) (targetName destination : Str)
      (net : Network),
      ((∀ data, net.exchange options targetName ≠ .ok (some data)) →
        ∀ now now' p, (final (downloadCommand host now now' options targetName destination net s)).get?
          p = s.get? p) ∧
      ∀ data, net.exchange options targetName = .ok (some data) →
        ∀ now now' t,
          downloadCommand host now now' options targetName destination net s = .ok () t →
          ∃ payload, host.payload data = .ok payload ∧ Received host s destination payload t := by
  intro h
  have herror : silent.exchange {} "yo".toList = .error .osError := by decide +kernel
  have hsame := (h homeHost homeTree {} "yo".toList "./f".toList silent).1
    (by rw [herror]; exact nofun) 0 0 ["home".toList, "f".toList]
  revert hsame
  decide +kernel

end Client
end NetworkingFinal
