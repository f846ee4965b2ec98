/-
  NetworkingFinal.Py.Overlay

  Unpacking an archive over what is there, at a path as it was typed.

  An archive that was unpacked lies over the tree (`Overlaid`): its files replace
  what they meet, its directories are added, and away from the target nothing
  changed.
-/
import NetworkingFinal.Py.TypedPath
import NetworkingFinal.Py.Unpacking

namespace NetworkingFinal
namespace Py
open PosixPath Prog Os

namespace ZipFile

/-- `t` is `v` with the members laid over what is at and below `q`. -/
structure Overlaid (q : Path) (members : List Member) (v t : FileTree) : Prop where
  files : ∀ x, t.fileAt (q ++ x) = (fileIn members x).or (v.fileAt (q ++ x))
  dirs : ∀ x, t.isDir (q ++ x) = true ↔ v.isDir (q ++ x) = true ∨ DirIn members x
  outside : ∀ p, ¬ q <+: p → t.get? p = v.get? p

/-- The last member to write a file decides. -/
theorem fileIn_append (members : List Member) {rest : List Member}
    (h : ∀ m ∈ rest, m.isDir = false → m.content ≠ none) (x : Path) :
    fileIn (members ++ rest) x = (fileIn rest x).or (fileIn members x) := by
  induction rest using List.reverseRecOn with
  | nil => simp [fileIn]
  | append_singleton rest m ih =>
      rw [← List.append_assoc, fileIn_concat, fileIn_concat,
        ih fun m' hm' => h m' (List.mem_append_left _ hm')]
      split
      · next hm =>
          obtain ⟨data, hdata⟩ := Option.ne_none_iff_exists'.mp (h m (by simp) hm.1)
          rw [hdata, Option.some_or]
      · rfl

theorem overlaid_nil (q : Path) (v : FileTree) : Overlaid q [] v v :=
  ⟨fun _ => rfl, fun _ => by simp [DirIn], fun _ _ => rfl⟩

/-- One archive over another. -/
theorem Overlaid.append {q : Path} {members rest : List Member} {v w t : FileTree}
    (h : Overlaid q members v w) (h' : Overlaid q rest w t)
    (hrest : ∀ m ∈ rest, m.isDir = false → m.content ≠ none) :
    Overlaid q (members ++ rest) v t where
  files x := by rw [h'.files, h.files, fileIn_append members hrest, Option.or_assoc]
  dirs x := by
    rw [h'.dirs, h.dirs, or_assoc]
    simp [DirIn, or_and_right, exists_or]
  outside p hp := (h'.outside p hp).trans (h.outside p hp)

section Place

variable {now : UInt64} {m : Member} {q : Path} {v u t : FileTree}

theorem dirIn_singleton {x : Path} :
    DirIn [m] x ↔ x <+: m.parts ∧ (x ≠ m.parts ∨ m.isDir = true) := by
  simp [DirIn]

/-- A directory of the archive, made where its path leads. -/
theorem overlaid_of_mkdir (hq : v.isDir q.dropLast = true) (hisDir : m.isDir = true)
    (hmade : Made now v (q ++ m.parts).dropLast u) (hup : u.get? (q ++ m.parts).dropLast ≠ none)
    (h : when (!u.isDir (q ++ m.parts)) (updateAt (mkdirAt now) (q ++ m.parts)) u = .ok () t) :
    Overlaid q [m] v t := by
  have hlast : Made now v (q ++ m.parts) t ∧ Ready v (q ++ m.parts) := by
    rcases List.eq_nil_or_concat' (q ++ m.parts) with hnil | ⟨d, name, hpath⟩
    · rw [hnil] at h hmade ⊢
      cases h
      exact ⟨hmade, Or.inl rfl⟩
    · rw [hpath] at h hmade hup ⊢
      rw [List.dropLast_concat] at hmade hup
      have hwp := @wp_mkdir_last now v u d name hmade hup
      rwa [wp, bind_of_ok (rfl : reads _ u = .ok _ u), h] at hwp
  refine ⟨fun x => ?_, fun x => ?_, fun p hp => hlast.1.get?_elsewhere hq List.prefix_rfl hp⟩
  · have hnone : fileIn [m] x = none := if_neg (by simp [hisDir])
    rw [hnone, Option.none_or, hlast.1.fileAt_eq]
  · rw [hlast.1.isDir_iff_of_ready hlast.2, List.prefix_append_right_inj, dirIn_singleton]
    simp [hisDir]

/-- A file of the archive, written where its path leads. -/
theorem overlaid_of_put {data : Bytes} (hq : v.isDir q.dropLast = true) (hfile : m.isDir = false)
    (hcontent : m.content = some data) (hmade : Made now v (q ++ m.parts).dropLast u)
    (h : put (.file data now) u (q ++ m.parts) = some t) : Overlaid q [m] v t := by
  obtain ⟨⟨hne, hudir, hunot, -⟩, -⟩ := put_eq_some_iff.mp h
  obtain ⟨d, name, hpath⟩ := (List.eq_nil_or_concat' (q ++ m.parts)).resolve_left hne
  have hready := hmade.isDir_iff.mp hudir
  have hsame : u.isDir (q ++ m.parts) = v.isDir (q ++ m.parts) := by
    rw [hpath, List.dropLast_concat] at hmade
    rw [hpath, FileTree.isDir, FileTree.isDir,
      hmade.get?_of_outside fun hpre => absurd hpre.length_le (by simp)]
  have hhere : ∀ x, q ++ x = q ++ m.parts ↔ m.parts = x := fun x => by
    rw [List.append_cancel_left_eq, eq_comm]
  refine ⟨fun x => ?_, fun x => ?_, fun p hp => ?_⟩
  · rw [Archive.fileAt_of_put h, hmade.fileAt_eq]
    simp only [hhere]
    by_cases hx : m.parts = x
    · have hin : fileIn [m] x = some data := (if_pos ⟨hfile, hx⟩).trans hcontent
      rw [if_pos hx, hin, Option.some_or]
    · have hin : fileIn [m] x = none := if_neg fun h => hx h.2
      rw [if_neg hx, hin, Option.none_or]
  · rw [FileTree.isDir, get?_of_put h]
    simp only [hhere, dirIn_singleton]
    by_cases hx : m.parts = x
    · subst hx
      rw [hsame] at hunot
      simp [hunot, hfile]
    · have hpre : q ++ x <+: (q ++ m.parts).dropLast ↔
          x <+: m.parts ∧ (x ≠ m.parts ∨ m.isDir = true) := by
        rw [hpath, List.dropLast_concat, prefix_iff_of_concat name, ← hpath,
          List.prefix_append_right_inj]
        simp [hfile]
      rw [if_neg hx, ← hpre, ← hmade.isDir_iff_of_ready hready]
      rfl
  · have hpq : p ≠ q ++ m.parts := fun he => hp (he ▸ List.prefix_append _ _)
    rw [get?_of_put h, if_neg hpq]
    exact hmade.get?_elsewhere hq (List.dropLast_prefix _) hp

end Place

section Member

variable {cwd target : Str} {now : UInt64} {m : Member} {v t : FileTree}
variable (hcwd : isabs cwd = true) (hplain : ∀ c ∈ comps cwd, Plain c)
include hcwd hplain

/-- The upper directories of a member are made, or there. -/
theorem made_upperdirs {p : Str} {there : Bool} {v' u : FileTree} (hne : p ≠ [])
    (hdir : isabs p = false → v.isDir (comps cwd) = true)
    (hthere : pathExists cwd (dirname (normpath p)) v = .ok there v')
    (hmake : when (dirname (normpath p) ≠ [] && !there) (makedirs cwd now (dirname (normpath p))) v'
      = .ok () u) :
    Made now v (comps (abspath cwd p)).dropLast u ∧
      u.get? (comps (abspath cwd p)).dropLast ≠ none := by
  obtain rfl : v' = v := (keeps_pathExists (F := unchanged)).of_ok hthere
  have hself : v'.isDir (comps (abspath cwd p)).dropLast = true →
      Made now v' (comps (abspath cwd p)).dropLast v' ∧
        v'.get? (comps (abspath cwd p)).dropLast ≠ none := fun h =>
    ⟨made_self (FileTree.get?_ne_none_of_isDir h), FileTree.get?_ne_none_of_isDir h⟩
  rcases dirname_normpath hcwd hplain hne hdir with ⟨hnil, habove⟩ | ⟨hdirname, d, hres, hd⟩
  · simp only [hnil, ne_eq, not_true_eq_false, decide_false, Bool.false_and] at hmake
    cases hmake
    exact hself habove
  · have hanswer : there = (v'.get? d).isSome := by
      simp only [pathExists, query, reads, hres, EStateM.Result.ok.injEq] at hthere
      exact hthere.1.symm
    simp only [hdirname, ne_eq, not_false_eq_true, decide_true, Bool.true_and] at hmake
    rcases hd with rfl | ⟨hisDir, habove⟩
    · have hrun : (reads (fun t => .ok (t.get? (comps (abspath cwd p)).dropLast).isSome) >>=
          fun there => when (!there) (makedirsAt now (comps (abspath cwd p)).dropLast.reverse)) v'
          = .ok () u := by
        rw [bind_of_ok (rfl : reads _ v' = .ok _ v'), ← hanswer, ← hmake]
        cases there with
        | true => rfl
        | false =>
            have hpath : reads (fun t => resolve cwd t (dirname (normpath p))) v'
                = .ok (comps (abspath cwd p)).dropLast v' := by
              simp [reads, hres]
            show makedirsAt now (comps (abspath cwd p)).dropLast.reverse v'
              = makedirs cwd now (dirname (normpath p)) v'
            rw [makedirs, bind_of_ok hpath]
      have hmade := wp_makedirs_unless now v' (comps (abspath cwd p)).dropLast
      rw [wp, hrun] at hmade
      exact hmade
    · rw [hanswer, Option.isSome_iff_ne_none.mpr (FileTree.get?_ne_none_of_isDir hisDir)] at hmake
      cases hmake
      exact hself habove

/-- A member that was unpacked lies over what was there. -/
theorem overlaid_extractMember (hne : target ≠ [])
    (hdir : isabs target = false → v.isDir (comps cwd) = true)
    (habove : v.isDir (comps (abspath cwd target)).dropLast = true)
    (h : extractMember cwd now target m v = .ok () t) :
    Overlaid (comps (abspath cwd target)) [m] v t ∧ (m.isDir = false → m.content ≠ none) := by
  have hrel := isPrefixOf_slash_joinSep m.plain_of_mem_parts
  obtain ⟨p, hp⟩ : ∃ p, join target (joinSep m.parts) = p := ⟨_, rfl⟩
  have hpath : comps (abspath cwd p) = comps (abspath cwd target) ++ m.parts := by
    rw [← hp]
    exact comps_abspath_join hcwd hplain m.plain_of_mem_parts
  have hpne : p ≠ [] := by
    rw [← hp]
    unfold join
    rw [if_neg (by simp [isabs, hrel])]
    split <;> simp [hne]
  have hpdir : isabs p = false → v.isDir (comps cwd) = true := by
    rw [← hp, isabs_join_eq hne hrel]
    exact hdir
  have hlead : ∀ {w : FileTree} {q : Path}, resolve cwd w (normpath p) = .ok q →
      q = comps (abspath cwd target) ++ m.parts := fun hres => by
    rw [eq_comps_abspath_of_resolve hcwd hplain hres, comps_abspath_normpath hcwd hplain hpne,
      hpath]
  unfold extractMember at h
  simp only [hp] at h
  obtain ⟨there, v', hthere, h⟩ := bind_ok_iff.mp h
  obtain ⟨_, u, hmake, h⟩ := bind_ok_iff.mp h
  obtain ⟨hmade, hup⟩ := made_upperdirs hcwd hplain hpne hpdir hthere hmake
  rw [hpath] at hmade hup
  split at h
  · next hisDir =>
      refine ⟨overlaid_of_mkdir habove hisDir hmade hup ?_, fun hfile => ?_⟩
      · obtain ⟨isDirectory, u', hquery, hmkdir⟩ := bind_ok_iff.mp h
        obtain rfl : u' = u := (keeps_isdir (F := unchanged)).of_ok hquery
        cases isDirectory with
        | true =>
            obtain ⟨hres, hthere, -⟩ := of_query_true hcwd hplain hquery
            cases hmkdir
            rw [← eq_comps_abspath_of_resolve hcwd hplain hres, hlead hres] at hthere
            rw [hthere]
            rfl
        | false =>
            obtain ⟨q, hres, hmk⟩ := update_ok_iff.mp hmkdir
            rw [hlead hres] at hmk
            have hnot := (put_of_mkdirAt hmk).1
            rw [FileTree.isDir, hnot]
            show updateAt (mkdirAt now) _ u' = .ok () t
            rw [updateAt, writes, hmk]
      · rw [hisDir] at hfile
        cases hfile
  · next hfile =>
      rw [Bool.not_eq_true] at hfile
      cases hcontent : m.content with
      | none =>
          simp only [hcontent] at h
          cases h
      | some data =>
          simp only [hcontent] at h
          obtain ⟨_, u', hwrite, h⟩ := bind_ok_iff.mp h
          obtain rfl : t = u' := (keeps_when (F := unchanged) fun _ => keeps_throw _).of_ok h
          obtain ⟨q, hres, hput⟩ := update_ok_iff.mp hwrite
          rw [hlead hres] at hput
          exact ⟨overlaid_of_put habove hfile hcontent hmade hput, fun _ => Option.some_ne_none _⟩

/-- An archive that was unpacked lies over what was there. -/
theorem overlaid_extractall {members : List Member} (hne : target ≠ [])
    (hdir : isabs target = false → v.isDir (comps cwd) = true)
    (habove : v.isDir (comps (abspath cwd target)).dropLast = true)
    (h : extractall cwd now target members v = .ok () t) :
    Overlaid (comps (abspath cwd target)) members v t ∧
      ∀ m ∈ members, m.isDir = false → m.content ≠ none := by
  induction members generalizing v with
  | nil =>
      cases h
      exact ⟨overlaid_nil _ _, nofun⟩
  | cons m members ih =>
      rw [extractall, each] at h
      obtain ⟨_, u, hfirst, hrest⟩ := bind_ok_iff.mp h
      have hkinds := (kindsStay_extractMember m).of_ok hfirst
      obtain ⟨hm, hcontent⟩ := overlaid_extractMember hcwd hplain hne hdir habove hfirst
      obtain ⟨hall, hcontents⟩ := ih (fun hrel => (hkinds _).1 (hdir hrel))
        ((hkinds _).1 habove) hrest
      refine ⟨hm.append hall hcontents, fun m' hm' => ?_⟩
      rcases List.mem_cons.mp hm' with rfl | hm'
      · exact hcontent
      · exact hcontents m' hm'

end Member

end ZipFile
end Py
end NetworkingFinal
